/-
**The store of stop-losses and take-profits.**

The store is one JSON file: a position's stop-loss, take-profit and order indices under its id.
Every operation reads the whole file, changes one entry and writes the whole file again, through a
temporary file.  Each step on the file system can fail, and a read that fails counts as an empty
file.

Main definitions:

* `JsonSltpStore.Disk` — the file and the temporary ones;
* `JsonSltpStore.setSltp`, `JsonSltpStore.clearSl`, `JsonSltpStore.clearTp` — the operations;
* `JsonSltpStore.Protects` — an operation keeps what it is not about;
* `JsonSltpStore.Harmless` — an operation that takes the file for an empty one loses nothing.

Main results:

* `JsonSltpStore.writeRaw_cases` — a write replaces the file, or leaves it as it was;
* `JsonSltpStore.perform_cases` — what an operation does to the file;
* `JsonSltpStore.run_protects_iff` — when all the operations of a run keep what they are not about.
-/

import Brokerage.Dict

set_option relaxedAutoImplicit false
set_option autoImplicit false

namespace JsonSltpStore

variable {F : Type}

/-! ### The file -/

inductive Number (F : Type)
  | int (z : ℤ)
  | float (x : F)
  deriving DecidableEq

/-- What is read under a key of an entry. -/
inductive Value (F : Type)
  | null
  | bool (b : Bool)
  | number (x : Number F)
  | str (s : String)
  | nested
  deriving DecidableEq

/-- The fields of an entry that are read. -/
inductive Field
  | sl
  | tp
  | slOrderIndex
  | tpOrderIndex
  deriving DecidableEq

def Field.key : Field → String
  | sl => "sl"
  | tp => "tp"
  | slOrderIndex => "sl_order_index"
  | tpOrderIndex => "tp_order_index"

/-- The type check of a field; a truth value is an `int`. -/
def Field.admits : Field → Value F → Bool
  | _, .bool _ => true
  | _, .number (.int _) => true
  | sl, .number (.float _) => true
  | tp, .number (.float _) => true
  | _, _ => false

/-- What is read under a position's id: an object, something that counts as false, or something
else. -/
inductive Entry (F : Type)
  | object (fields : Dict String (Value F))
  | falsy
  | other
  deriving DecidableEq

/-- What is read from a file. -/
inductive Content (F : Type)
  | undecodable
  | unparsable
  | notObject
  | object (entries : Dict String (Entry F))
  deriving DecidableEq

/-- The store's file, if there is one, and the temporary files. -/
structure Disk (F : Type) where
  file : Option (Content F)
  temps : Dict String (Content F)
  deriving DecidableEq

/-- A field of an entry. -/
def Entry.read (entry : Entry F) (f : Field) : Option (Value F) :=
  match entry with
  | object fields => (fields.get? f.key).filter f.admits
  | _ => none

/-- The entries of a file. -/
def Content.entries : Content F → Dict String (Entry F)
  | object entries => entries
  | _ => Dict.empty

def Disk.entries (d : Disk F) : Dict String (Entry F) := (d.file.map Content.entries).getD Dict.empty

/-- The field of a position, among some entries. -/
def stored (raw : Dict String (Entry F)) (positionId : String) (f : Field) : Option (Value F) :=
  (raw.get? positionId).bind fun entry => entry.read f

/-- The field of a position on the disk. -/
def Disk.stored (d : Disk F) : String → Field → Option (Value F) := JsonSltpStore.stored d.entries

/-! ### Steps that can fail -/

inductive Error
  | notFound
  | osError
  | jsonDecodeError
  | unicodeDecodeError
  | typeError
  | killed
  deriving DecidableEq

/-- `json.JSONDecodeError` or `OSError`. -/
def Error.isReadError : Error → Bool
  | notFound => true
  | osError => true
  | jsonDecodeError => true
  | _ => false

inductive Step
  | exists_
  | load
  | ensureDir
  | mkstemp
  | dump
  | replace
  | unlink
  deriving DecidableEq

/-- What the file system and the clock answer in an operation. -/
structure Io where
  fault : Step → Option Error
  tmpPath : String
  now : String

abbrev Store (F α : Type) := EStateM Error (Disk F) α

/-- A step fails if the file system says so. -/
def Io.attempt (io : Io) (s : Step) : Store F Unit :=
  match io.fault s with
  | none => pure ()
  | some e => throw e

/-- `self._path.exists()`: a missing file is no error. -/
def pathExists (io : Io) : Store F Bool := do
  match io.fault .exists_ with
  | none => return (← get).file.isSome
  | some .notFound => return false
  | some e => throw e

/-- `json.load`, where anything but an object counts as an empty one. -/
def load (io : Io) : Store F (Dict String (Entry F)) := do
  io.attempt .load
  match (← get).file with
  | none => throw .notFound
  | some .undecodable => throw .unicodeDecodeError
  | some .unparsable => throw .jsonDecodeError
  | some .notObject => return Dict.empty
  | some (.object entries) => return entries

def readRaw (io : Io) : Store F (Dict String (Entry F)) := do
  if ← pathExists io then
    tryCatch (load io) fun e => if e.isReadError then return Dict.empty else throw e
  else return Dict.empty

/-- The temporary file is removed after an exception, if that is possible. -/
def cleanup (io : Io) (e : Error) : Store F Unit := do
  if e ≠ .killed ∧ io.fault .unlink = none then
    modify fun d => { d with temps := d.temps.erase io.tmpPath }
  throw e

def writeRaw (io : Io) (data : Dict String (Entry F)) : Store F Unit := do
  io.attempt .ensureDir
  io.attempt .mkstemp
  modify fun d => { d with temps := d.temps.set io.tmpPath .unparsable }
  tryCatch (do
      io.attempt .dump
      modify fun d => { d with temps := d.temps.set io.tmpPath (.object data) }
      io.attempt .replace
      modify fun d =>
        { d with file := d.temps.get? io.tmpPath, temps := d.temps.erase io.tmpPath })
    (cleanup io)

/-! ### Operations -/

def getSltpIndices (io : Io) (positionId : String) : Store F (Field → Option (Value F)) := do
  return stored (← readRaw io) positionId

/-- The two levels of a position, unless it has neither. -/
def levels (fields : Field → Option (Value F)) : Option (Option (Value F) × Option (Value F)) :=
  match fields .sl, fields .tp with
  | none, none => none
  | sl, tp => some (sl, tp)

def getSltp (io : Io) (positionId : String) :
    Store F (Option (Option (Value F) × Option (Value F))) := do
  return levels (stored (← readRaw io) positionId)

/-- `dict(raw.get(position_id) or {})`. -/
def entryOf (raw : Dict String (Entry F)) (positionId : String) : Store F (Dict String (Value F)) :=
  match raw.get? positionId with
  | none => return Dict.empty
  | some .falsy => return Dict.empty
  | some (.object fields) => return fields
  | some .other => throw .typeError

/-- An entry is read, changed and written. -/
def update (io : Io) (positionId : String) (edit : Dict String (Value F) → Dict String (Value F)) :
    Store F Unit := do
  let raw ← readRaw io
  let entry ← entryOf raw positionId
  writeRaw io (raw.set positionId (.object ((edit entry).set "updated_at" (.str io.now))))

/-- A field is set if a value is given. -/
def setGiven (f : Field) (given : Option (Value F)) (entry : Dict String (Value F)) :
    Dict String (Value F) :=
  match given with
  | none => entry
  | some v => entry.set f.key v

/-- The given values, in the order in which they are set. -/
def setFields (given : Field → Option (Value F)) (entry : Dict String (Value F)) :
    Dict String (Value F) :=
  setGiven .tpOrderIndex (given .tpOrderIndex)
    (setGiven .slOrderIndex (given .slOrderIndex)
      (setGiven .tp (given .tp) (setGiven .sl (given .sl) entry)))

/-- The arguments by their fields. -/
def givenFields (sl tp : Option (Number F)) (slOrderIndex tpOrderIndex : Option ℤ) :
    Field → Option (Value F)
  | .sl => sl.map .number
  | .tp => tp.map .number
  | .slOrderIndex => slOrderIndex.map fun z => .number (.int z)
  | .tpOrderIndex => tpOrderIndex.map fun z => .number (.int z)

def setSltp (io : Io) (positionId : String) (sl tp : Option (Number F))
    (slOrderIndex tpOrderIndex : Option ℤ) : Store F Unit :=
  update io positionId (setFields (givenFields sl tp slOrderIndex tpOrderIndex))

def clearSl (io : Io) (positionId : String) : Store F Unit :=
  update io positionId fun entry => (entry.erase "sl").erase "sl_order_index"

def clearTp (io : Io) (positionId : String) : Store F Unit :=
  update io positionId fun entry => (entry.erase "tp").erase "tp_order_index"

/-! ### Runs -/

inductive Op (F : Type)
  | setSltp (positionId : String) (sl tp : Option (Number F)) (slOrderIndex tpOrderIndex : Option ℤ)
  | clearSl (positionId : String)
  | clearTp (positionId : String)

namespace Op

def positionId : Op F → String
  | setSltp positionId _ _ _ _ => positionId
  | clearSl positionId => positionId
  | clearTp positionId => positionId

/-- The values that are given to `set_sltp`. -/
def given : Op F → Field → Option (Value F)
  | setSltp _ sl tp slOrderIndex tpOrderIndex => givenFields sl tp slOrderIndex tpOrderIndex
  | _ => fun _ => none

/-- The fields that an operation is to leave: those of other positions, and, of the position of a
`set_sltp`, those that are not given. -/
def Leaves : Op F → String → Field → Prop
  | setSltp p sl tp slOrderIndex tpOrderIndex, q, f =>
      q ≠ p ∨ givenFields sl tp slOrderIndex tpOrderIndex f = none
  | clearSl p, q, _ => q ≠ p
  | clearTp p, q, _ => q ≠ p

end Op

def perform (io : Io) : Op F → Store F Unit
  | .setSltp positionId sl tp slOrderIndex tpOrderIndex =>
      setSltp io positionId sl tp slOrderIndex tpOrderIndex
  | .clearSl positionId => clearSl io positionId
  | .clearTp positionId => clearTp io positionId

/-- The disk after an operation, whether it raised or not. -/
def diskAfter (r : EStateM.Result Error (Disk F) Unit) : Disk F :=
  match r with
  | .ok _ d => d
  | .error _ d => d

/-- The disk after some operations. -/
def run (d : Disk F) (ops : List (Op F × Io)) : Disk F :=
  ops.foldl (fun d op => diskAfter (perform op.2 op.1 d)) d

/-- What an operation is to leave is as it was, what it was given is stored unless it raises, and if
it raises the file is as it was. -/
structure Protects (op : Op F) (d : Disk F) (r : EStateM.Result Error (Disk F) Unit) : Prop where
  frame : ∀ q f, op.Leaves q f → (diskAfter r).stored q f = d.stored q f
  given : ∀ d', r = .ok () d' → ∀ f v, op.given f = some v → d'.stored op.positionId f = some v
  failed : ∀ e d', r = .error e d' → d'.file = d.file

/-- The file is taken for an empty one: it is not seen, or reading it fails. -/
def Io.misreads (io : Io) : Bool :=
  match io.fault .exists_ with
  | some .notFound => true
  | some _ => false
  | none =>
      match io.fault .load with
      | some e => e.isReadError
      | none => false

/-- No step of a write fails. -/
def Io.writes (io : Io) : Bool :=
  (io.fault .ensureDir).isNone && (io.fault .mkstemp).isNone && (io.fault .dump).isNone &&
    (io.fault .replace).isNone

/-- If the file is taken for an empty one and written again, there is nothing in it that the
operation is to leave. -/
def Harmless (op : Op F) (io : Io) (d : Disk F) : Prop :=
  io.misreads = true → io.writes = true → ∀ q f, op.Leaves q f → d.stored q f = none

/-! ### Computations -/

section Computations

variable {α β : Type} {x : Store F α} {g : α → Store F β} {handler : Error → Store F α}
  {d d' : Disk F} {a : α} {e : Error}

theorem bind_ok (h : x d = .ok a d') : (x >>= g) d = g a d' := by
  simp [bind, EStateM.bind, h]

theorem bind_error (h : x d = .error e d') : (x >>= g) d = .error e d' := by
  simp [bind, EStateM.bind, h]

theorem bind_modify (f : Disk F → Disk F) (g : Unit → Store F β) (d : Disk F) :
    (modify f >>= g) d = g () (f d) := rfl

theorem tryCatch_ok (h : x d = .ok a d') : tryCatch x handler d = .ok a d' := by
  simp [tryCatch, tryCatchThe, MonadExceptOf.tryCatch, EStateM.tryCatch, h]

theorem tryCatch_error (h : x d = .error e d') : tryCatch x handler d = handler e d' := by
  change EStateM.tryCatch x handler d = _
  rw [EStateM.tryCatch, h]
  rfl

variable {io : Io} {s : Step}

theorem attempt_none (h : io.fault s = none) : io.attempt s d = .ok () d := by
  simp [Io.attempt, h, pure, EStateM.pure]

theorem attempt_some (h : io.fault s = some e) : io.attempt s d = .error e d := by
  simp [Io.attempt, h, throw, throwThe, MonadExceptOf.throw, EStateM.throw]

end Computations

/-! ### What an operation does to the file -/

/-- Cleaning up after an exception leaves the file, and the exception. -/
theorem cleanup_file (io : Io) (e : Error) (d : Disk F) :
    ∃ d', cleanup io e d = .error e d' ∧ d'.file = d.file := by
  by_cases h : e ≠ .killed ∧ io.fault .unlink = none
  · have hrun : cleanup io e d = .error e { d with temps := d.temps.erase io.tmpPath } := by
      rw [cleanup, if_pos h]
      rfl
    exact ⟨_, hrun, rfl⟩
  · have hrun : cleanup io e d = .error e d := by
      rw [cleanup, if_neg h]
      rfl
    exact ⟨_, hrun, rfl⟩

/-- A write replaces the file, or leaves it as it was. -/
theorem writeRaw_cases (io : Io) (data : Dict String (Entry F)) (d : Disk F) :
    io.writes = true ∧ (∃ d', writeRaw io data d = .ok () d' ∧ d'.file = some (.object data)) ∨
      io.writes = false ∧ ∃ e d', writeRaw io data d = .error e d' ∧ d'.file = d.file := by
  rw [Io.writes, writeRaw]
  cases hdir : io.fault .ensureDir with
  | some e => exact .inr ⟨rfl, e, d, bind_error (attempt_some hdir), rfl⟩
  | none =>
      cases hmkstemp : io.fault .mkstemp with
      | some e =>
          refine .inr ⟨rfl, e, d, ?_, rfl⟩
          rw [bind_ok (attempt_none hdir), bind_error (attempt_some hmkstemp)]
      | none =>
          rw [bind_ok (attempt_none hdir), bind_ok (attempt_none hmkstemp), bind_modify]
          -- what is written goes to the temporary file
          cases hdump : io.fault .dump with
          | some e =>
              obtain ⟨d', hclean, hfile⟩ :=
                cleanup_file io e { d with temps := d.temps.set io.tmpPath .unparsable }
              refine .inr ⟨rfl, e, d', ?_, hfile⟩
              rw [tryCatch_error (bind_error (attempt_some hdump)), hclean]
          | none =>
              cases hreplace : io.fault .replace with
              | some e =>
                  obtain ⟨d', hclean, hfile⟩ := cleanup_file io e
                    { d with
                      temps := (d.temps.set io.tmpPath .unparsable).set io.tmpPath (.object data) }
                  refine .inr ⟨rfl, e, d', ?_, hfile⟩
                  rw [tryCatch_error, hclean]
                  rw [bind_ok (attempt_none hdump), bind_modify, bind_error (attempt_some hreplace)]
              | none =>
                  refine .inl ⟨rfl, ?disk, tryCatch_ok ?run, ?file⟩
                  case run =>
                      rw [bind_ok (attempt_none hdump), bind_modify,
                        bind_ok (attempt_none hreplace)]
                      rfl
                  case file => exact Dict.get?_set_self _ _ _

theorem load_cases (io : Io) (d : Disk F) :
    (∃ e, io.fault .load = some e ∧ load io d = .error e d) ∨
      io.fault .load = none ∧ (load io d = .ok d.entries d ∨ ∃ e, load io d = .error e d ∧
        (e.isReadError = true → d.entries = Dict.empty)) := by
  rw [load]
  cases hload : io.fault .load with
  | some e => exact .inl ⟨e, rfl, bind_error (attempt_some hload)⟩
  | none =>
      refine .inr ⟨rfl, ?_⟩
      rw [bind_ok (attempt_none hload)]
      obtain ⟨file, temps⟩ := d
      cases file with
      | none => exact .inr ⟨_, rfl, fun _ => rfl⟩
      | some content =>
          cases content with
          | undecodable => exact .inr ⟨_, rfl, fun _ => rfl⟩
          | unparsable => exact .inr ⟨_, rfl, fun _ => rfl⟩
          | notObject => exact .inl rfl
          | object entries => exact .inl rfl

theorem pathExists_cases (io : Io) (d : Disk F) :
    (∃ e, io.fault .exists_ = some e ∧ e ≠ .notFound ∧ pathExists io d = .error e d) ∨
      io.fault .exists_ = some .notFound ∧ pathExists io d = .ok false d ∨
        io.fault .exists_ = none ∧ pathExists io d = .ok d.file.isSome d := by
  rw [pathExists]
  cases io.fault .exists_ with
  | none => exact .inr (.inr ⟨rfl, rfl⟩)
  | some e =>
      cases e with
      | notFound => exact .inr (.inl ⟨rfl, rfl⟩)
      | _ => exact .inl ⟨_, rfl, nofun, rfl⟩

/-- A read gives the entries of the file, or none if the file is taken for an empty one. -/
theorem readRaw_cases (io : Io) (d : Disk F) :
    (io.misreads = false ∧ ∃ e, readRaw io d = .error e d) ∨
      readRaw io d = .ok (if io.misreads then Dict.empty else d.entries) d := by
  rw [readRaw, Io.misreads]
  rcases pathExists_cases io d with ⟨e, hfault, hne, hexists⟩ | ⟨hfault, hexists⟩ | ⟨hfault, hexists⟩
  · refine .inl ⟨?_, e, bind_error hexists⟩
    rw [hfault]
    cases e with
    | notFound => exact absurd rfl hne
    | _ => rfl
  · refine .inr ?_
    rw [bind_ok hexists, hfault]
    rfl
  · rw [bind_ok hexists, hfault]
    dsimp only
    cases hfile : d.file with
    | none =>
        have hentries : d.entries = Dict.empty := by
          rw [Disk.entries, hfile]
          rfl
        rw [hentries, ite_self]
        exact .inr rfl
    | some content =>
        simp only [Option.isSome_some, if_true]
        rcases load_cases io d with ⟨e, hload, hrun⟩ | ⟨hload, hrun | ⟨e, hrun, hempty⟩⟩
        · rw [tryCatch_error hrun, hload]
          dsimp only
          by_cases hread : e.isReadError = true
          · rw [if_pos hread, if_pos hread]
            exact .inr rfl
          · rw [if_neg hread]
            exact .inl ⟨Bool.eq_false_iff.2 hread, e, rfl⟩
        · rw [tryCatch_ok hrun, hload]
          exact .inr rfl
        · rw [tryCatch_error hrun, hload]
          cases hread : e.isReadError with
          | true =>
              rw [hempty hread]
              exact .inr rfl
          | false => exact .inl ⟨rfl, e, rfl⟩

/-- What is read of a position, unless reading raises or the file is taken for an empty one, is what
is stored. -/
theorem getSltp_cases {io : Io} (h : io.misreads = false) (positionId : String) (d : Disk F) :
    (∃ e, getSltpIndices io positionId d = .error e d ∧ getSltp io positionId d = .error e d) ∨
      getSltpIndices io positionId d = .ok (d.stored positionId) d ∧
        getSltp io positionId d = .ok (levels (d.stored positionId)) d := by
  rw [getSltpIndices, getSltp]
  rcases readRaw_cases io d with ⟨-, e, hread⟩ | hread
  · exact .inl ⟨e, bind_error hread, bind_error hread⟩
  · rw [h] at hread
    rw [bind_ok hread, bind_ok hread]
    exact .inr ⟨rfl, rfl⟩

/-- The changes that an operation makes to the entry of its position. -/
def Op.edit : Op F → Dict String (Value F) → Dict String (Value F)
  | setSltp _ sl tp slOrderIndex tpOrderIndex =>
      setFields (givenFields sl tp slOrderIndex tpOrderIndex)
  | clearSl _ => fun entry => (entry.erase "sl").erase "sl_order_index"
  | clearTp _ => fun entry => (entry.erase "tp").erase "tp_order_index"

theorem perform_eq (io : Io) (op : Op F) : perform io op = update io op.positionId op.edit := by
  cases op with
  | setSltp => rfl
  | clearSl => rfl
  | clearTp => rfl

/-- The entry of a position as an operation starts with it. -/
def priorEntry (raw : Dict String (Entry F)) (positionId : String) : Dict String (Value F) :=
  match raw.get? positionId with
  | some (.object fields) => fields
  | _ => Dict.empty

theorem entryOf_cases (raw : Dict String (Entry F)) (positionId : String) (d : Disk F) :
    entryOf raw positionId d = .ok (priorEntry raw positionId) d ∨
      raw.get? positionId = some .other ∧ entryOf raw positionId d = .error .typeError d := by
  rw [entryOf, priorEntry]
  cases raw.get? positionId with
  | none => exact .inl rfl
  | some entry =>
      cases entry with
      | other => exact .inr ⟨rfl, rfl⟩
      | _ => exact .inl rfl

/-- The entries that an operation writes. -/
def written (io : Io) (op : Op F) (raw : Dict String (Entry F)) : Dict String (Entry F) :=
  raw.set op.positionId
    (.object ((op.edit (priorEntry raw op.positionId)).set "updated_at" (.str io.now)))

/-- An operation raises and leaves the file, or changes one entry of what it has read. -/
theorem perform_cases (io : Io) (op : Op F) (d : Disk F) :
    (∃ e d', perform io op d = .error e d' ∧ d'.file = d.file ∧
        (io.misreads = true → io.writes = false)) ∨
      io.writes = true ∧ ∃ d', perform io op d = .ok () d' ∧
        d'.entries = written io op (if io.misreads then Dict.empty else d.entries) := by
  rw [perform_eq, update]
  rcases readRaw_cases io d with ⟨hreads, e, hread⟩ | hread
  · refine .inl ⟨e, d, bind_error hread, rfl, fun h => ?_⟩
    rw [hreads] at h
    cases h
  · rw [bind_ok hread]
    rcases entryOf_cases (if io.misreads then Dict.empty else d.entries) op.positionId d with
      hentry | ⟨hother, hentry⟩
    · rw [bind_ok hentry]
      rcases writeRaw_cases io (written io op (if io.misreads then Dict.empty else d.entries)) d with
        ⟨hwrites, d', hrun, hfile⟩ | ⟨hwrites, e, d', hrun, hfile⟩
      · refine .inr ⟨hwrites, d', hrun, ?_⟩
        rw [Disk.entries, hfile]
        rfl
      · exact .inl ⟨e, d', hrun, hfile, fun _ => hwrites⟩
    · refine .inl ⟨_, d, bind_error hentry, rfl, fun h => ?_⟩
      rw [if_pos h] at hother
      cases hother

/-! ### What is stored -/

theorem setGiven_get? (f g : Field) (given : Option (Value F)) (entry : Dict String (Value F)) :
    (setGiven f given entry).get? g.key =
      if g = f then given.or (entry.get? g.key) else entry.get? g.key := by
  have hkey : g.key = f.key ↔ g = f := by
    cases f <;> cases g <;> decide
  cases given with
  | none => simp [setGiven]
  | some v => simp [setGiven, Dict.get?_set, hkey]

/-- After the fields are set each given one reads as its value. -/
theorem setFields_get? (given : Field → Option (Value F)) (entry : Dict String (Value F))
    (f : Field) : (setFields given entry).get? f.key = (given f).or (entry.get? f.key) := by
  simp only [setFields, setGiven_get?]
  cases f <;> simp

theorem stored_eq (raw : Dict String (Entry F)) (positionId : String) (f : Field) :
    stored raw positionId f = ((priorEntry raw positionId).get? f.key).filter f.admits := by
  rw [stored, priorEntry]
  cases raw.get? positionId with
  | none => rfl
  | some entry => cases entry <;> rfl

theorem stored_written_self (io : Io) (op : Op F) (raw : Dict String (Entry F)) (f : Field) :
    stored (written io op raw) op.positionId f =
      ((op.edit (priorEntry raw op.positionId)).get? f.key).filter f.admits := by
  have hkey : f.key ≠ "updated_at" := by cases f <;> decide
  rw [stored, written, Dict.get?_set_self, Option.bind_some, Entry.read, Dict.get?_set_of_ne _ _ hkey]

/-- What an operation is to leave is written as it was read. -/
theorem stored_written_of_leaves {op : Op F} {q : String} {f : Field} (h : op.Leaves q f) (io : Io)
    (raw : Dict String (Entry F)) : stored (written io op raw) q f = stored raw q f := by
  by_cases hq : q = op.positionId
  · subst hq
    rw [stored_written_self, stored_eq]
    cases op with
    | setSltp p sl tp slOrderIndex tpOrderIndex =>
        have hgiven := h.resolve_left (not_not.2 rfl)
        rw [Op.edit, setFields_get?, hgiven, Option.none_or]
    | clearSl p => exact absurd rfl h
    | clearTp p => exact absurd rfl h
  · rw [stored, written, Dict.get?_set_of_ne _ _ hq]
    rfl

/-- What an operation is given is written. -/
theorem stored_written_given {op : Op F} {f : Field} {v : Value F} (h : op.given f = some v) (io : Io)
    (raw : Dict String (Entry F)) : stored (written io op raw) op.positionId f = some v := by
  cases op with
  | setSltp p sl tp slOrderIndex tpOrderIndex =>
      have hadmits : f.admits v = true := by
        cases f with
        | sl =>
            obtain ⟨x, -, rfl⟩ := Option.map_eq_some_iff.1 h
            cases x <;> rfl
        | tp =>
            obtain ⟨x, -, rfl⟩ := Option.map_eq_some_iff.1 h
            cases x <;> rfl
        | slOrderIndex =>
            obtain ⟨z, -, rfl⟩ := Option.map_eq_some_iff.1 h
            rfl
        | tpOrderIndex =>
            obtain ⟨z, -, rfl⟩ := Option.map_eq_some_iff.1 h
            rfl
      have hgiven : givenFields sl tp slOrderIndex tpOrderIndex f = some v := h
      rw [stored_written_self, Op.edit, setFields_get?, hgiven, Option.some_or,
        Option.filter_some, if_pos hadmits]
  | clearSl p => cases h
  | clearTp p => cases h

/-! ### What is protected -/

/-- An operation keeps what it is not about exactly if it does not write over a file that it has
taken for an empty one. -/
theorem protects_iff (op : Op F) (io : Io) (d : Disk F) :
    Protects op d (perform io op d) ↔ Harmless op io d := by
  rcases perform_cases io op d with ⟨e, d', hrun, hfile, hwrites⟩ | ⟨hwrites, d', hrun, hentries⟩
  · have hstored : d'.stored = d.stored := by
      rw [Disk.stored, Disk.stored, Disk.entries, hfile]
      rfl
    rw [hrun]
    refine iff_of_true ⟨fun q f _ => ?_, fun _ h => (by cases h), fun e' d'' h => ?_⟩ ?_
    · rw [diskAfter, hstored]
    · cases h
      exact hfile
    · intro hmisreads hw
      rw [hwrites hmisreads] at hw
      cases hw
  · rw [hrun]
    have hframe : Protects op d (.ok () d') ↔ ∀ q f, op.Leaves q f →
        stored (if io.misreads then Dict.empty else d.entries) q f = d.stored q f := by
      constructor
      · intro h q f hleaves
        have := h.frame q f hleaves
        rwa [diskAfter, Disk.stored, hentries, stored_written_of_leaves hleaves] at this
      · intro h
        refine ⟨fun q f hleaves => ?_, fun d'' hd f v hv => ?_, fun _ _ h => by cases h⟩
        · rw [diskAfter, Disk.stored, hentries, stored_written_of_leaves hleaves]
          exact h q f hleaves
        · cases hd
          rw [Disk.stored, hentries]
          exact stored_written_given hv io _
    rw [hframe, Harmless]
    by_cases hmisreads : io.misreads = true
    · simp only [hmisreads, hwrites, if_true, true_imp_iff]
      exact forall_congr' fun q => forall_congr' fun f => imp_congr_right fun _ => eq_comm
    · refine iff_of_true (fun q f _ => ?_) fun h => absurd h hmisreads
      rw [if_neg hmisreads]
      rfl

/-- In a run every operation keeps what it is not about exactly if none of them writes over a file
that it has taken for an empty one; and what is read of a position after a run is what is stored, unless
reading raises or takes the file for an empty one. -/
theorem run_protects_iff (d : Disk F) (ops : List (Op F × Io)) :
    ((∀ before op io after, ops = before ++ (op, io) :: after →
      Protects op (run d before) (perform io op (run d before))) ↔
      ∀ before op io after, ops = before ++ (op, io) :: after → Harmless op io (run d before)) ∧
      ∀ io positionId, io.misreads = false →
        (∃ e, getSltpIndices io positionId (run d ops) = .error e (run d ops) ∧
          getSltp io positionId (run d ops) = .error e (run d ops)) ∨
        getSltpIndices io positionId (run d ops) =
            .ok ((run d ops).stored positionId) (run d ops) ∧
          getSltp io positionId (run d ops) =
            .ok (levels ((run d ops).stored positionId)) (run d ops) :=
  ⟨forall_congr' fun before => forall_congr' fun op => forall_congr' fun io =>
    forall_congr' fun _ => imp_congr_right fun _ => protects_iff op io (run d before),
    fun _ positionId h => getSltp_cases h positionId (run d ops)⟩

/-! ### A lost protection -/

/-- Nothing fails. -/
def noFault : Io := ⟨fun _ => none, ".sltp_store.a.tmp", "2026-02-13T10:00:00+00:00"⟩

/-- The file cannot be read once. -/
def unreadable : Io :=
  ⟨fun s => if s = .load then some .osError else none, ".sltp_store.b.tmp",
    "2026-02-13T10:01:00+00:00"⟩

/-- Two positions are protected, one after the other. -/
def twoPositions : List (Op ℤ × Io) :=
  [(.setSltp "1:1" (some (.float 1900)) (some (.float 2100)) none none, noFault),
    (.setSltp "2:2" (some (.float 95)) none none none, unreadable)]

/-- The first position has lost its stop-loss. -/
theorem twoPositions_lost :
    ¬ ∀ before op io after, twoPositions = before ++ (op, io) :: after →
      Protects op (run ⟨none, Dict.empty⟩ before) (perform io op (run ⟨none, Dict.empty⟩ before)) := by
  intro h
  have hframe := (h [_] _ _ [] rfl).frame "1:1" .sl (.inl (by decide))
  revert hframe
  decide

end JsonSltpStore
