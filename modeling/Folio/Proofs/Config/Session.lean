import Folio.Config.Store

/-! Sessions of a store whose files change under it. The requests since the configuration was last given up have each
met the files as they were at that time, and the first of these files that could be read is what the store answers
with, whatever has become of them. -/
namespace Folio.ConfigStore

/-- The ways to ask for the configuration. -/
inductive Request where
  | snapshot
  | reload

def Request.run : Request → ConfigStore → FileTree → Except Error Config × ConfigStore
  | .snapshot, store, files => store.snapshot files
  | .reload, store, files => store.reload files

/-- What happens in a session: other files take the place of those that are there, or the store is called. -/
inductive Event where
  | edit (files : FileTree)
  | invalidate
  | request (request : Request)

/-- The files, the store and the answers it has given, the last one at the end. -/
structure Session where
  files : FileTree
  store : ConfigStore
  answers : List (Except Error Config)

namespace Session

def start (root : String) (project : Option String) (files : FileTree) : Session :=
  ⟨files, .new root project, []⟩

def step (session : Session) : Event → Session
  | .edit files => { session with files }
  | .invalidate => { session with store := session.store.invalidate }
  | .request request =>
    let (answer, store) := request.run session.store session.files
    { session with store, answers := session.answers ++ [answer] }

def run (session : Session) (events : List Event) : Session :=
  events.foldl step session

theorem run_concat (session : Session) (events : List Event) (event : Event) :
    session.run (events ++ [event]) = (session.run events).step event :=
  List.foldl_append

/-- Answers are only added to. -/
theorem answers_prefix_run (session : Session) (events : List Event) :
    session.answers <+: (session.run events).answers := by
  induction events generalizing session with
  | nil => exact List.prefix_rfl
  | cons event events ih =>
    refine List.IsPrefix.trans ?_ (ih (session.step event))
    cases event with
    | edit | invalidate => exact List.prefix_rfl
    | request => exact List.prefix_append ..

end Session

/-! ### Periods -/

/-- The files, and those that the requests have met since the configuration was last given up, the last ones at the end.
A reload gives it up before it meets any. -/
structure Period where
  files : FileTree
  met : List FileTree

def Period.note (period : Period) : Event → Period
  | .edit files => { period with files }
  | .invalidate => { period with met := [] }
  | .request .snapshot => { period with met := period.met ++ [period.files] }
  | .request .reload => { period with met := [period.files] }

def Period.of (files : FileTree) (events : List Event) : Period :=
  events.foldl note ⟨files, []⟩

theorem Period.of_concat (files : FileTree) (events : List Event) (event : Event) :
    Period.of files (events ++ [event]) = (Period.of files events).note event :=
  List.foldl_append

variable {root : String} {project : Option String} {session : Session} {period : Period}

/-- The configuration is read from one of the files, and none can be read from those before. -/
def IsFirstReading (root : String) (project : Option String) (met : List FileTree) (config : Config) : Prop :=
  ∃ earlier files later, met = earlier ++ files :: later ∧ Config.readProject files root project = .ok config ∧
    ∀ unread ∈ earlier, ∃ error, Config.readProject unread root project = .error error

/-- The configuration in the first of the files that can be read. -/
def firstReading? (root : String) (project : Option String) (met : List FileTree) : Option Config :=
  met.findSome? (fun files => (Config.readProject files root project).toOption)

theorem toOption_readProject_eq_none_iff {files : FileTree} :
    (Config.readProject files root project).toOption = none ↔
      ∃ error, Config.readProject files root project = .error error := by
  cases Config.readProject files root project <;> simp [Except.toOption]

theorem isFirstReading_iff {met : List FileTree} {config : Config} :
    IsFirstReading root project met config ↔ firstReading? root project met = some config := by
  have read (files : FileTree) : (Config.readProject files root project).toOption = some config ↔
      Config.readProject files root project = .ok config := by
    cases Config.readProject files root project <;> simp [Except.toOption]
  rw [firstReading?, List.findSome?_eq_some_iff, IsFirstReading]
  simp only [read, toOption_readProject_eq_none_iff]

theorem firstReading?_singleton (files : FileTree) :
    firstReading? root project [files] = (Config.readProject files root project).toOption :=
  List.findSome?_singleton

theorem firstReading?_concat (met : List FileTree) (files : FileTree) :
    firstReading? root project (met ++ [files]) =
      (firstReading? root project met).or (Config.readProject files root project).toOption := by
  rw [firstReading?, List.findSome?_append]
  exact congrArg _ (firstReading?_singleton files)

/-- A request meets the files as they are. -/
theorem Period.mem_met (period : Period) (request : Request) :
    period.files ∈ (period.note (.request request)).met := by
  cases request with
  | snapshot => exact List.mem_append_right _ (List.mem_singleton_self _)
  | reload => exact List.mem_singleton_self _

/-! ### What a store holds -/

/-- An empty store reads the files and keeps what it reads. -/
theorem snapshot_empty (root : String) (project : Option String) (files : FileTree) :
    snapshot ⟨root, project, none⟩ files =
      (Config.readProject files root project, ⟨root, project, (Config.readProject files root project).toOption⟩) := by
  rw [snapshot]
  cases Config.readProject files root project <;> rfl

/-- A request to a store that holds the first reading of the period answers with the first reading of the period that
the request belongs to, or else as the files are read, and leaves the store with that reading. -/
theorem Request.run_eq (request : Request) (period : Period) :
    request.run ⟨root, project, firstReading? root project period.met⟩ period.files =
      let first := firstReading? root project (period.note (.request request)).met
      (first.elim (Config.readProject period.files root project) .ok, ⟨root, project, first⟩) := by
  cases request with
  | snapshot =>
    rw [run, Period.note, firstReading?_concat]
    cases firstReading? root project period.met with
    | some config => rfl
    | none =>
      rw [snapshot_empty]
      cases Config.readProject period.files root project <;> rfl
  | reload =>
    change ConfigStore.snapshot ⟨root, project, none⟩ period.files = _
    rw [snapshot_empty, Period.note, firstReading?_singleton]
    cases Config.readProject period.files root project <;> rfl

/-- The store holds the first reading of the period. -/
structure Session.Keeps (root : String) (project : Option String) (session : Session) (period : Period) : Prop where
  files_eq : session.files = period.files
  store_eq : session.store = ⟨root, project, firstReading? root project period.met⟩

namespace Session

theorem keeps_start (root : String) (project : Option String) (files : FileTree) :
    (start root project files).Keeps root project ⟨files, []⟩ :=
  ⟨rfl, rfl⟩

theorem Keeps.run_request (keeps : session.Keeps root project period) (request : Request) :
    request.run session.store session.files =
      let first := firstReading? root project (period.note (.request request)).met
      (first.elim (Config.readProject session.files root project) .ok, ⟨root, project, first⟩) := by
  rw [keeps.store_eq, keeps.files_eq]
  exact request.run_eq period

theorem Keeps.step (keeps : session.Keeps root project period) (event : Event) :
    (session.step event).Keeps root project (period.note event) := by
  cases event with
  | edit files => exact ⟨rfl, keeps.store_eq⟩
  | invalidate => exact ⟨keeps.files_eq, by rw [Session.step, keeps.store_eq]; rfl⟩
  | request request =>
    refine ⟨?_, by rw [Session.step, keeps.run_request]⟩
    cases request with
    | snapshot | reload => exact keeps.files_eq

theorem Keeps.run (keeps : session.Keeps root project period) (events : List Event) :
    (session.run events).Keeps root project (events.foldl Period.note period) := by
  induction events generalizing session period with
  | nil => exact keeps
  | cons event events ih => exact ih (keeps.step event)

end Session

end Folio.ConfigStore
