import Folio.Config.Project

/-! A store that keeps the configuration of a project once it has been read. -/
namespace Folio

structure ConfigStore where
  root : String
  project : Option String
  current : Option Config

namespace ConfigStore

/-- A store that has read nothing. -/
def new (root : String) (project : Option String) : ConfigStore :=
  ⟨root, project, none⟩

/-- The configuration, read from the files if the store has none. A failure leaves it without one. -/
def snapshot (store : ConfigStore) (files : FileTree) : Except Error Config × ConfigStore :=
  match store.current with
  | some config => (.ok config, store)
  | none =>
    match Config.readProject files store.root store.project with
    | .ok config => (.ok config, { store with current := some config })
    | .error error => (.error error, store)

/-- Forgets the configuration. -/
def invalidate (store : ConfigStore) : ConfigStore :=
  { store with current := none }

/-- Reads the configuration anew. -/
def reload (store : ConfigStore) (files : FileTree) : Except Error Config × ConfigStore :=
  store.invalidate.snapshot files

end ConfigStore

end Folio
