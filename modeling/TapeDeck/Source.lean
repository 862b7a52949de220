import TapeDeck.Message.Fault

/-!
# Tape sources

A `Source` is an open tape file: its bytes, a read position, and the size
it reports, which a faulty source may get wrong.  Reading takes bytes from
the position, fewer at the end of the bytes.  Seeking sets the position,
also past the end; a negative position is refused.
-/

namespace TapeDeck

open Message

/-- Listing a byte array from place `i` onto `r` puts its bytes from `i` on
after `r`, reversed. -/
theorem byteArray_toList_loop (bs : ByteArray) (i : Nat) (r : List UInt8) :
    ByteArray.toList.loop bs i r = r.reverse ++ bs.data.toList.drop i := by
  fun_induction ByteArray.toList.loop bs i r with
  | case1 i r hi ih =>
    rw [ih, List.reverse_cons, List.append_assoc, List.singleton_append]
    congr 1
    have hget : bs.get! i = bs.data.toList.get ⟨i, by simpa using hi⟩ := by
      simp [ByteArray.get!, hi]
    rw [hget, List.get_eq_getElem]
    exact (List.drop_eq_getElem_cons _).symm
  | case2 i r hi =>
    rw [List.drop_eq_nil_of_le (by simpa using hi), List.append_nil]

/-- The bytes of a byte array are its array's. -/
theorem byteArray_toList (bs : ByteArray) : bs.toList = bs.data.toList := by
  simp [ByteArray.toList, byteArray_toList_loop]

/-- Where the bytes of a source live; it decides the text of a refused seek. -/
inductive SourceKind where
  /-- A file of the file store. -/
  | file
  /-- Bytes held in memory. -/
  | memory
deriving DecidableEq, Repr, Inhabited

/-- An open tape file. -/
structure Source where
  /-- The name it was opened by. -/
  name : String
  /-- Its bytes. -/
  bytes : ByteArray
  /-- The read position. -/
  pos : Nat := 0
  /-- The size it reports. -/
  size : Int
  /-- Where its bytes live. -/
  kind : SourceKind

namespace Source

/-- A source over bytes, reporting their number as its size. -/
def ofBytes (name : String) (kind : SourceKind) (bytes : ByteArray) : Source :=
  { name, bytes, size := bytes.size, kind }

/-- Up to `n` bytes from the position, and the source past them. -/
def read (s : Source) (n : Nat) : List UInt8 × Source :=
  let got := (s.bytes.extract s.pos (s.pos + n)).toList
  (got, { s with pos := s.pos + got.length })

/-- All bytes from the position on, and the source at the end. -/
def readAll (s : Source) : List UInt8 × Source := s.read (s.bytes.size - s.pos)

/-- The source at a new position, or why it cannot go there. -/
def seek (s : Source) (offset : Int) : Except Value Source :=
  if offset < 0 then
    match s.kind with
    | .file => .error (.failure "*fs.PathError" ("seek " ++ s.name ++ ": invalid argument"))
    | .memory => .error (.failure "*errors.errorString" "bytes.Reader.Seek: negative position")
  else .ok { s with pos := offset.toNat }

end Source

end TapeDeck
