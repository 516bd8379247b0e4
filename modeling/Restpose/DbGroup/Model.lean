import Restpose.Json.Value
import Restpose.Xapian.Database

/-!
# Groups of databases

A collection keeps its documents in several databases, the fragments of a
group.  A fragment is opened when it is first used, for reading or for writing.
A database that is open for reading is a snapshot of what was committed when it
was opened; one that is open for writing shows its own changes.  Reads of the
group go through a combined database that is built from the handles that the
fragments have at that time, and is kept until the next fragment is added.

The model follows `dbgroup.cc` for a group that is open for writing.
-/

namespace Restpose

open Xapian

/-- The state of a `DbFragment`, with the database of the open handle. -/
inductive Handle where
  | closed
  | reading (rodb : Database)
  | writing (wrdb : Database)

/-- `DbFragment`, together with what is committed at its path. -/
structure DbFragment where
  committed : Database
  handle : Handle

namespace DbFragment

/-- What the next reader or writer would find in the fragment. -/
def contents (fragment : DbFragment) : Database :=
  match fragment.handle with
  | .writing wrdb => wrdb
  | _ => fragment.committed

def openWritable (fragment : DbFragment) : DbFragment :=
  match fragment.handle with
  | .writing _ => fragment
  | _ => { fragment with handle := .writing fragment.committed }

/-- `DbFragment::open_readonly`.  Closing a handle for writing commits its
changes. -/
def openReadonly (fragment : DbFragment) : DbFragment :=
  ⟨fragment.contents, .reading fragment.contents⟩

/-- `DbFragment::get_db`, for the handle it leaves the fragment with. -/
def opened (fragment : DbFragment) : DbFragment :=
  match fragment.handle with
  | .closed => fragment.openReadonly
  | _ => fragment

/-- `DbFragment::get_db`, for the database it returns. -/
def getDb (fragment : DbFragment) : Database :=
  match fragment.opened.handle with
  | .writing wrdb => wrdb
  | .reading rodb => rodb
  | .closed => Database.empty

/-- Change the database of a fragment that is open for writing.  The source
throws if it is not, and opens every fragment for writing before. -/
def write (fragment : DbFragment) (change : Database → Database) : DbFragment :=
  match fragment.handle with
  | .writing wrdb => { fragment with handle := .writing (change wrdb) }
  | _ => fragment

def addDoc (fragment : DbFragment) (document : Document)
    (idterm : Bytes) : DbFragment :=
  fragment.write fun wrdb =>
    if idterm = [] then wrdb.addDocument document
    else wrdb.replaceDocument idterm document

def deleteDoc (fragment : DbFragment) (idterm : Bytes) : DbFragment :=
  fragment.write fun wrdb => wrdb.deleteByTerm idterm

def commit (fragment : DbFragment) : DbFragment :=
  { fragment with committed := fragment.contents }

end DbFragment

/-- One of the databases that `group_db` is made of: the handle for writing of
a fragment, which goes on to show its changes, or a snapshot. -/
inductive View where
  | live (index : ℕ)
  | snapshot (rodb : Database)

/-- A `DbGroup` that is open for writing.  There is a `groupDb` if
`group_db_valid` is set. -/
structure DbGroup where
  maxNewdbDocs : ℕ
  frags : List DbFragment
  groupDb : Option (List View)

namespace DbGroup

/-- `DbGroup::add_frag`: a new database, open for writing. -/
def addFrag (group : DbGroup) : DbGroup :=
  { group with
    frags := group.frags ++ [⟨Database.empty, .writing Database.empty⟩]
    groupDb := none }

/-- `add_database((*i)->get_db())`. -/
def view (index : ℕ) (fragment : DbFragment) : View :=
  match fragment.handle with
  | .writing _ => .live index
  | _ => .snapshot fragment.getDb

/-- `DbGroup::init_group_db`, and with it `DbGroup::get_db`. -/
def initGroupDb (group : DbGroup) : DbGroup :=
  match group.groupDb with
  | some _ => group
  | none =>
      let frags := group.frags.map DbFragment.opened
      { group with frags, groupDb := some (frags.mapIdx view) }

/-- The database that a part of `group_db` shows. -/
def shown (frags : List DbFragment) : View → Database
  | .live index =>
      match frags[index]? with
      | some fragment => fragment.contents
      | none => Database.empty
  | .snapshot rodb => rodb

/-- The databases that `group_db` shows. -/
def shownDbs (group : DbGroup) : List Database :=
  match group.groupDb with
  | none => []
  | some views => views.map (shown group.frags)

/-- The documents with a term in a combined database, under their numbers
there: the documents of the databases alternate. -/
def combinedPostings (dbs : List Database) (term : Bytes) :
    List (ℕ × Document) :=
  dbs.zipIdx.flatMap fun (db, index) =>
    (db.postings term).filterMap fun docid =>
      db.docs[docid]?.map fun document =>
        ((docid - 1) * dbs.length + index + 1, document)

/-- `DbGroup::get_document`: the first document with the term, if there is
one. -/
def getDocument (group : DbGroup) (idterm : Bytes) : Option Document :=
  ((combinedPostings group.initGroupDb.shownDbs idterm).argmin
    Prod.fst).map Prod.snd

def docExists (group : DbGroup) (idterm : Bytes) : Bool :=
  group.initGroupDb.shownDbs.any fun db => db.termExists idterm

/-- The loop that looks for a document from the newest fragment on.  Every
fragment on the way is opened. -/
def search (idterm : Bytes) :
    ℕ → List DbFragment → List DbFragment × Option ℕ
  | 0, frags => (frags, none)
  | index + 1, frags =>
      match frags[index]? with
      | none => (frags, none)
      | some fragment =>
          if fragment.getDb.termExists idterm then
            (frags.set index fragment.opened, some index)
          else search idterm index (frags.set index fragment.opened)

/-- `frags.back()->get_db()`, for the handle it leaves. -/
def openLast (group : DbGroup) : DbGroup :=
  { group with
    frags := group.frags.modify (group.frags.length - 1) DbFragment.opened }

/-- `frags.back()->get_db().get_doccount()`. -/
def lastDoccount (group : DbGroup) : ℕ :=
  match group.frags.getLast? with
  | none => 0
  | some fragment => fragment.getDb.doccount

/-- Start a new fragment if the last one is full. -/
def makeRoom (group : DbGroup) : DbGroup :=
  if group.maxNewdbDocs ≤ group.lastDoccount then group.openLast.addFrag
  else group.openLast

/-- Add a document to a fragment. -/
def addDocAt (group : DbGroup) (index : ℕ) (document : Document)
    (idterm : Bytes) : DbGroup :=
  { group with
    frags := group.frags.modify index fun fragment =>
      fragment.openWritable.addDoc document idterm }

/-- The end of `add_doc`: the document goes to the last fragment, or to a new
one if that is full. -/
def appendDoc (group : DbGroup) (document : Document) (idterm : Bytes) :
    DbGroup :=
  group.makeRoom.addDocAt (group.makeRoom.frags.length - 1) document idterm

/-- Ensure that there is at least one fragment. -/
def ensureFrag (group : DbGroup) : DbGroup :=
  if group.frags.isEmpty then group.addFrag else group

def addDoc (group : DbGroup) (document : Document) (idterm : Bytes) :
    DbGroup :=
  let ensured := group.ensureFrag
  if idterm = [] then ensured.appendDoc document idterm
  else
    match search idterm ensured.frags.length ensured.frags with
    | (frags, some index) =>
        { ensured with frags }.addDocAt index document idterm
    | (frags, none) => { ensured with frags }.appendDoc document idterm

def emptyTermError : InvalidValueError :=
  ⟨ascii "Empty term id must not be passed to delete document"⟩

def deleteDoc (group : DbGroup) (idterm : Bytes) : Outcome DbGroup :=
  if idterm = [] then ⟨group, some emptyTermError⟩
  else
    match search idterm group.frags.length group.frags with
    | (frags, some index) =>
        ⟨{ group with frags := frags.modify index fun fragment =>
            fragment.openWritable.deleteDoc idterm }, none⟩
    | (frags, none) => ⟨{ group with frags }, none⟩

def sync (group : DbGroup) : DbGroup :=
  { group with frags := group.frags.map DbFragment.commit }

/-- The operations on a group. -/
inductive Operation where
  | addDoc (document : Document) (idterm : Bytes)
  | deleteDoc (idterm : Bytes)
  | getDb
  | getDocument (idterm : Bytes)
  | docExists (idterm : Bytes)
  | sync

/-- The group after an operation.  The read operations leave the handles that
they opened and the combined database. -/
def run (group : DbGroup) : Operation → DbGroup
  | .addDoc document idterm => group.addDoc document idterm
  | .deleteDoc idterm => (group.deleteDoc idterm).state
  | .getDb | .getDocument _ | .docExists _ => group.initGroupDb
  | .sync => group.sync

end DbGroup

end Restpose
