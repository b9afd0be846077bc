import AssetGroups.Store.Access

/-!
The operations of a store, and what a single store would make of its content in each of them.
-/

namespace AssetGroups.Store

inductive Operation where
  | save (g : Group)
  | saveUnique (g : Group)
  | remove (id : Nat)
  | clear
  | byId (id : Nat)
  | byName (name : String)
  | names
  | ids
  | list
deriving Repr

inductive Answer where
  | group (g : Group)
  | done
  | names (names : List String)
  | ids (ids : List Nat)
  | infos (infos : List GroupInfo)
deriving Repr

namespace Operation

/-- Whether the content may be changed. -/
def changes : Operation → Bool
  | .save _ | .saveUnique _ | .remove _ | .clear => true
  | .byId _ | .byName _ | .names | .ids | .list => false

/-- What an instance does. -/
def work (cfg : Storage) : Operation → Work Answer
  | .save g => .group <$> Store.save cfg g
  | .saveUnique g => .group <$> Store.saveUnique cfg g
  | .remove id => (fun _ => .done) <$> Store.remove cfg id
  | .clear => (fun _ => .done) <$> Store.clear cfg
  | .byId id => .group <$> Store.byId cfg id
  | .byName name => .group <$> Store.byName cfg name
  | .names => .names <$> Store.names cfg
  | .ids => .ids <$> Store.ids cfg
  | .list => .infos <$> Store.list cfg

/-- The answer of a single store with a content, and its content afterwards. -/
def plain : Operation → Database → Except GroupError (Answer × Database)
  | .save g, db => let (stored, db) := db.save g; .ok (.group stored, db)
  | .saveUnique g, db => (db.saveUnique g).map fun (stored, db) => (.group stored, db)
  | .remove id, db => (db.remove id).map fun db => (.done, db)
  | .clear, db => .ok (.done, db.clear)
  | .byId id, db => (db.byId id).map fun g => (.group g, db)
  | .byName name, db => (db.byName name).map fun g => (.group g, db)
  | .names, db => .ok (.names db.names, db)
  | .ids, db => .ok (.ids db.ids, db)
  | .list, db => .ok (.infos db.list, db)

/-- The step of a single store: an operation that fails leaves the content as it is. -/
def apply (op : Operation) (db : Database) : Except GroupError Answer × Database :=
  match op.plain db with
  | .ok (a, db) => (.ok a, db)
  | .error e => (.error e, db)

end Operation

end AssetGroups.Store
