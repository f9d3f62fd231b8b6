import MyGenSvr.Ports.Serializer

/-!
# Archives: `BEGIN_SERIAL_MAP`, `List<Type>`, and the 3005 messages

An archive type is a list of fields, each a scalar, a string, an archive or a
`List`; `Ty` is the universe of those types and `Ty.put`/`Ty.get` are the
operators the macros and `List<Type>::Serialize` expand to.  `SERIAL_ENTRY`
looks at the error code before each field; the loops of `List` do not.

The two messages of `MyArchv.h` are given as the structures they are and shown
to be the archives with their field types.
-/

namespace MyGenSvr.Ports

/-! ## The universe of serializable types -/

mutual
/-- A type with stream operators. -/
inductive Ty where
  | scalar (k : Scalar)
  | string
  | archive (fields : Fields)
  | list (elem : Ty)

/-- The columns of a `SERIAL_MAP`, in order. -/
inductive Fields where
  | nil
  | cons (t : Ty) (rest : Fields)
end

mutual
/-- Values of a serializable type. -/
def Ty.Val : Ty → Type
  | .scalar k => k.Val
  | .string => List UInt8
  | .archive fs => fs.Val
  | .list t => List t.Val

/-- Values of the columns of an archive. -/
def Fields.Val : Fields → Type
  | .nil => Unit
  | .cons t fs => t.Val × fs.Val
end

mutual
/-- A default-constructed local: strings and lists are empty, scalars hold
whatever was there. -/
def Ty.fresh (h : Host) : (t : Ty) → t.Val
  | .scalar k => h.uninit k
  | .string => ([] : List UInt8)
  | .archive fs => fs.fresh h
  | .list t => ([] : List t.Val)

def Fields.fresh (h : Host) : (fs : Fields) → fs.Val
  | .nil => ()
  | .cons t fs => (t.fresh h, fs.fresh h)
end

/-! ## The macros and the list loops -/

/-- `SERIAL_ENTRY` when saving. -/
def entryPut (put : Serializer → Serializer) (s : Serializer) : Serializer :=
  if s.iError = 0 then put s else s

/-- `SERIAL_ENTRY` when loading into a member. -/
def entryGet {α : Type} (get : Serializer → α → Serializer × α) (s : Serializer)
    (member : α) : Serializer × α :=
  if s.iError = 0 then get s member else (s, member)

theorem entryPut_of_ok (put : Serializer → Serializer) {s : Serializer}
    (hs : s.iError = 0) : entryPut put s = put s := if_pos hs

theorem entryPut_of_error (put : Serializer → Serializer) {s : Serializer}
    (hs : s.iError ≠ 0) : entryPut put s = s := if_neg hs

theorem entryGet_of_ok {α : Type} (get : Serializer → α → Serializer × α)
    {s : Serializer} (hs : s.iError = 0) (member : α) :
    entryGet get s member = get s member := if_pos hs

theorem entryGet_of_error {α : Type} (get : Serializer → α → Serializer × α)
    {s : Serializer} (hs : s.iError ≠ 0) (member : α) :
    entryGet get s member = (s, member) := if_neg hs

theorem entryGet_changeByteOrder {α : Type} {get : Serializer → α → Serializer × α}
    (hget : ∀ s m, (get s m).1.changeByteOrder = s.changeByteOrder) (s : Serializer)
    (member : α) : (entryGet get s member).1.changeByteOrder = s.changeByteOrder := by
  unfold entryGet
  split
  · exact hget s member
  · rfl

/-- The loading loop of `List`: one local is reused for every element, and is
appended whether or not its extraction succeeded. -/
def loadLoop {α : Type} (get : Serializer → α → Serializer × α) :
    Nat → Serializer → α → List α → Serializer × List α
  | 0, s, _, acc => (s, acc)
  | n + 1, s, t, acc =>
      let r := get s t
      loadLoop get n r.1 r.2 (acc ++ [r.2])

mutual
/-- `operator<<`. -/
def Ty.put (h : Host) : (t : Ty) → t.Val → Serializer → Serializer
  | .scalar k, v, s => s.putScalar h k v
  | .string, v, s => s.putString v
  | .archive fs, v, s => fs.save h v s
  | .list t, v, s =>
      let size := UInt16.ofNat (List.length v)
      let s := s.putScalar h .uInt16 size
      if size > 0 then List.foldl (fun s x => t.put h x s) s v else s

/-- `Serialize(serializer, false)` of an archive. -/
def Fields.save (h : Host) : (fs : Fields) → fs.Val → Serializer → Serializer
  | .nil, _, s => s
  | .cons t fs, (v, vs), s => fs.save h vs (entryPut (t.put h v) s)
end

mutual
/-- `operator>>`. -/
def Ty.get (h : Host) : (t : Ty) → Serializer → t.Val → Serializer × t.Val
  | .scalar k, s, v => s.getScalar h k v
  | .string, s, v => s.getString v
  | .archive fs, s, v => fs.load h s v
  | .list t, s, v =>
      let r := s.getScalar h .uInt16 (0 : UInt16)
      let size : UInt16 := r.2
      if size > 0 then loadLoop (t.get h) size.toNat r.1 (t.fresh h) v else (r.1, v)

/-- `Serialize(serializer, true)` of an archive. -/
def Fields.load (h : Host) : (fs : Fields) → Serializer → fs.Val → Serializer × fs.Val
  | .nil, s, v => (s, v)
  | .cons t fs, s, (v, vs) =>
      let r := entryGet (t.get h) s v
      let r' := fs.load h r.1 vs
      (r'.1, (r.2, r'.2))
end

/-- What an extraction keeps, a loop of extractions keeps. -/
theorem loadLoop_keeps {α : Type} {get : Serializer → α → Serializer × α}
    {I : Serializer → Prop} (hget : ∀ s v, I s → I (get s v).1) (n : Nat) :
    ∀ (s : Serializer) (v : α) (acc : List α), I s → I (loadLoop get n s v acc).1 := by
  induction n with
  | zero =>
      intro s v acc hs
      exact hs
  | succ n ih =>
      intro s v acc hs
      exact ih _ _ _ (hget s v hs)

theorem entryGet_keeps {α : Type} {get : Serializer → α → Serializer × α}
    {I : Serializer → Prop} (hget : ∀ s v, I s → I (get s v).1) (s : Serializer) (v : α)
    (hs : I s) : I (entryGet get s v).1 := by
  unfold entryGet
  split
  · exact hget s v hs
  · exact hs

/-! ## The messages of `MyArchv.h` -/

/-- `Archv3005Req`. -/
structure Archv3005Req where
  userNumber : List UInt8
  opType : UInt8
  deriving DecidableEq, Repr

/-- `Archv3005Ack`. -/
structure Archv3005Ack where
  errorCode : UInt16
  userNumber : List UInt8
  userAlias : List UInt8
  deriving DecidableEq, Repr

/-- A default-constructed `Archv3005Req`. -/
def Archv3005Req.init : Archv3005Req := ⟨[], 0⟩

/-- `Archv3005Req::Serialize(serializer, false)`. -/
def Archv3005Req.save (h : Host) (v : Archv3005Req) (s : Serializer) : Serializer :=
  let s := entryPut (fun s => s.putString v.userNumber) s
  entryPut (fun s => s.putScalar h .byte v.opType) s

/-- `Archv3005Req::Serialize(serializer, true)`. -/
def Archv3005Req.load (h : Host) (s : Serializer) (v : Archv3005Req) :
    Serializer × Archv3005Req :=
  let r₁ := entryGet Serializer.getString s v.userNumber
  let r₂ := entryGet (Serializer.getScalar h .byte) r₁.1 v.opType
  (r₂.1, ⟨r₁.2, r₂.2⟩)

/-- `Archv3005Ack::Serialize(serializer, false)`. -/
def Archv3005Ack.save (h : Host) (v : Archv3005Ack) (s : Serializer) : Serializer :=
  let s := entryPut (fun s => s.putScalar h .uInt16 v.errorCode) s
  let s := entryPut (fun s => s.putString v.userNumber) s
  entryPut (fun s => s.putString v.userAlias) s

/-- `Archv3005Ack::Serialize(serializer, true)`. -/
def Archv3005Ack.load (h : Host) (s : Serializer) (v : Archv3005Ack) :
    Serializer × Archv3005Ack :=
  let r₁ := entryGet (Serializer.getScalar h .uInt16) s v.errorCode
  let r₂ := entryGet Serializer.getString r₁.1 v.userNumber
  let r₃ := entryGet Serializer.getString r₂.1 v.userAlias
  (r₃.1, ⟨r₁.2, r₂.2, r₃.2⟩)

/-- The columns of `Archv3005Req`. -/
def Archv3005Req.fields : Fields := .cons .string (.cons (.scalar .byte) .nil)

/-- The columns of `Archv3005Ack`. -/
def Archv3005Ack.fields : Fields :=
  .cons (.scalar .uInt16) (.cons .string (.cons .string .nil))

/-- A request as the values of its columns. -/
def Archv3005Req.columns (v : Archv3005Req) : Archv3005Req.fields.Val :=
  (v.userNumber, v.opType, ())

/-- An acknowledgement as the values of its columns. -/
def Archv3005Ack.columns (v : Archv3005Ack) : Archv3005Ack.fields.Val :=
  (v.errorCode, v.userNumber, v.userAlias, ())

theorem Archv3005Req.save_eq (h : Host) (v : Archv3005Req) (s : Serializer) :
    v.save h s = Archv3005Req.fields.save h v.columns s := rfl

theorem Archv3005Req.load_eq (h : Host) (s : Serializer) (v : Archv3005Req) :
    Archv3005Req.fields.load h s v.columns =
      ((Archv3005Req.load h s v).1, (Archv3005Req.load h s v).2.columns) := rfl

theorem Archv3005Ack.save_eq (h : Host) (v : Archv3005Ack) (s : Serializer) :
    v.save h s = Archv3005Ack.fields.save h v.columns s := rfl

theorem Archv3005Ack.load_eq (h : Host) (s : Serializer) (v : Archv3005Ack) :
    Archv3005Ack.fields.load h s v.columns =
      ((Archv3005Ack.load h s v).1, (Archv3005Ack.load h s v).2.columns) := rfl

end MyGenSvr.Ports
