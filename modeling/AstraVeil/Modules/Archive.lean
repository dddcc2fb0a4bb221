import AstraVeil.Lib.KotlinString

/-!
# Module archives

An `.avm` package as `java.util.zip.ZipFile` presents it: the list of its entries and a lookup by
name.  The format allows several entries of one name; which of them the lookup returns is not
fixed here.
-/

namespace AstraVeil.Modules

open Utf16 KotlinString

/-- A `ZipEntry` with the bytes that reading it gives.  `size` and `compressedSize` are what the
archive declares, negative where it does not. -/
structure ZipEntry where
  name : JString
  content : List UInt8
  size : ℤ
  compressedSize : ℤ
  deriving DecidableEq

/-- `ZipEntry.isDirectory`. -/
def ZipEntry.isDirectory (e : ZipEntry) : Bool := e.name.getLast? == some 0x2F

/-- `ZipFile`: a lookup finds an entry of the name or else the directory of the name. -/
structure ZipFile where
  entries : List ZipEntry
  getEntry : JString → Option ZipEntry
  getEntry_some : ∀ n e, getEntry n = some e →
    e ∈ entries ∧ (e.name = n ∨ (e.name = n ++ [0x2F] ∧ ∀ e' ∈ entries, e'.name ≠ n))
  getEntry_none : ∀ n, getEntry n = none → ∀ e ∈ entries, e.name ≠ n ∧ e.name ≠ n ++ [0x2F]

/-- The archive whose lookup returns the first entry of a name. -/
def ZipFile.ofEntries (entries : List ZipEntry) : ZipFile where
  entries := entries
  getEntry n := (entries.find? (·.name == n)).or (entries.find? (·.name == n ++ [0x2F]))
  getEntry_some := by
    intro n e h
    rcases Option.or_eq_some_iff.1 h with h | ⟨hnone, h⟩
    · have hname := List.find?_some h
      exact ⟨List.mem_of_find?_eq_some h, Or.inl (by simpa using hname)⟩
    · have hname := List.find?_some h
      refine ⟨List.mem_of_find?_eq_some h, Or.inr ⟨by simpa using hname, ?_⟩⟩
      intro e' he' hname
      exact List.find?_eq_none.1 hnone e' he' (beq_iff_eq.2 hname)
  getEntry_none := by
    intro n h e he
    obtain ⟨h1, h2⟩ := Option.or_eq_none_iff.1 h
    exact ⟨fun hn => List.find?_eq_none.1 h1 e he (beq_iff_eq.2 hn),
      fun hn => List.find?_eq_none.1 h2 e he (beq_iff_eq.2 hn)⟩

/-- `SignatureStatus`. -/
inductive SignatureStatus
  | verified
  | unsigned
  | unknown
  | invalid
  deriving DecidableEq

/-- `TrustLevel`. -/
inductive TrustLevel
  | official
  | trustedDeveloper
  | unknownDeveloper
  | unsigned
  | invalid
  deriving DecidableEq

end AstraVeil.Modules
