import Phrasebook.Transform

/-!
# Workers that share a store

Prepared files may be applied by several workers to one store at the same time. What a worker does
with a candidate is three steps that nothing interrupts: its text is interned, its id is assigned,
its message is added. Between two of them any steps of other workers may take place. A worker ends
when all candidates of its file are recorded, or fails when no id is left for one.
-/

namespace Phrasebook

/-- What a worker is to do. -/
structure Job where
  file : Prepared
  options : Options := {}

/-- How far a worker is. -/
inductive Stage where
  /-- In front of the candidates that are left. -/
  | ready (rest : List Candidate)
  /-- The text of a candidate is interned. -/
  | interned (c : Candidate) (rest : List Candidate)
  /-- A candidate has its id, but its message is not in the store yet. -/
  | assigned (c : Candidate) (id : String) (rest : List Candidate)
  | failed (error : ExhaustedIds)
deriving DecidableEq

structure Worker where
  job : Job
  /-- The candidates whose messages are in the store, with their ids. -/
  recorded : List (Candidate × String) := []
  stage : Stage

namespace Worker

def start (job : Job) : Worker := { job, stage := .ready job.file.candidates }

/-- The next step of a worker; none is left for one that has ended or failed. -/
def step (w : Worker) (s : Store) : Worker × Store :=
  match w.stage with
  | .ready [] | .failed _ => (w, s)
  | .ready (c :: cs) => ({ w with stage := .interned c cs }, s.intern c.text)
  | .interned c cs =>
    match s.assignId c.text c.context w.job.options.idLength with
    | none => ({ w with stage := .failed ⟨c.text⟩ }, s)
    | some (id, s) => ({ w with stage := .assigned c id cs }, s)
  | .assigned c id cs =>
    ({ w with recorded := w.recorded ++ [(c, id)], stage := .ready cs },
      s.add (messageOf w.job.file.filename id c))

/-- The ids for all candidates of the file, or why there are none, as soon as it is known. -/
def result? (w : Worker) : Option (Except ExhaustedIds (List String)) :=
  match w.stage with
  | .ready [] => some (.ok (w.recorded.map (·.2)))
  | .failed e => some (.error e)
  | _ => none

end Worker

/-- Workers and the store that they share. -/
structure Crew where
  workers : List Worker
  store : Store

namespace Crew

def start (jobs : List Job) (s : Store) : Crew := ⟨jobs.map Worker.start, s⟩

/-- The next step of the worker number `i`. -/
def step (crew : Crew) (i : Nat) : Crew :=
  match crew.workers[i]? with
  | none => crew
  | some w =>
    let (w, s) := w.step crew.store
    ⟨crew.workers.set i w, s⟩

/-- Steps in the order in which the schedule names workers. -/
def run (crew : Crew) (schedule : List Nat) : Crew := schedule.foldl step crew

/-- All workers have ended, and none has failed. -/
def IsDone (crew : Crew) : Prop := ∀ w ∈ crew.workers, w.stage = .ready []

instance (crew : Crew) : Decidable crew.IsDone :=
  inferInstanceAs (Decidable (∀ w ∈ crew.workers, w.stage = .ready []))

end Crew

end Phrasebook
