import Microps.Addr

/-!
# The grammar of addresses

Which texts are addresses, written down without the parsers, for either kind of field: runs of
digits alone, and what the integer parsers of the standard library read, where a plus sign may
stand in front.  The parsers of addresses hand their fields to those of the standard library, so
that the second grammar is theirs.
-/

namespace Microps

open Numeral

/-! ## Fields -/

/-- A run of digits whose value is at most `max`. -/
def RunUpTo (radix max : Nat) (s : List Char) : Prop := ∃ n ≤ max, IsRun radix s n

/-- The same, perhaps after a plus sign. -/
def NumeralUpTo (radix max : Nat) (s : List Char) : Prop := ∃ n ≤ max, IsNumeral radix s n

/-- The text is `n` fields with the separator in between. -/
def Separated (sep : Char) (n : Nat) (Field : List Char → Prop) (s : List Char) : Prop :=
  ∃ fields : List (List Char), fields.length = n ∧ (∀ field ∈ fields, Field field) ∧
    s = [sep].intercalate fields

/-! ## Addresses -/

section

variable (Field : Nat → Nat → List Char → Prop)

/-- The text of an IP address. -/
def IsIpAddr (s : List Char) : Prop := Separated '.' 4 (Field 10 255) s

/-- The text of an endpoint. -/
def IsIpEndp (s : List Char) : Prop :=
  ∃ addr port, s = addr ++ ':' :: port ∧ IsIpAddr Field addr ∧ Field 10 65535 port

/-- The text of an Ethernet address. -/
def IsEtherAddr (s : List Char) : Prop := Separated ':' 6 (Field 16 255) s

/-- The parsers accept the texts of the grammar with such fields and no others. -/
def AcceptsExactly : Prop :=
  ∀ s, ((IpAddr.fromStr s).isSome ↔ IsIpAddr Field s) ∧
    ((IpEndp.fromStr s).isSome ↔ IsIpEndp Field s) ∧
    ((EtherAddr.fromStr s).isSome ↔ IsEtherAddr Field s)

end

/-! ## What the parsers accept -/

/-- A numeral that fits is that of a word. -/
theorem numeralUpTo_iff {radix w : Nat} {s : List Char} :
    NumeralUpTo radix (2 ^ w - 1) s ↔ ∃ v : BitVec w, IsNumeral radix s v.toNat := by
  constructor
  · rintro ⟨n, hn, hnumeral⟩
    have hpos := Nat.two_pow_pos w
    refine ⟨BitVec.ofNat w n, ?_⟩
    rwa [BitVec.toNat_ofNat, Nat.mod_eq_of_lt (by omega)]
  · rintro ⟨v, hnumeral⟩
    exact ⟨v.toNat, Nat.le_sub_one_of_lt v.isLt, hnumeral⟩

/-- Fields that are read as the octets of an address are separated numerals. -/
theorem exists_reads_iff {sep : Char} {radix n : Nat} {A : Type} {octets : A → List U8}
    (hoctets : ∀ os : List U8, os.length = n ↔ ∃ a, octets a = os) {s : List Char} :
    (∃ a fields, Reads radix fields (octets a) ∧ s = [sep].intercalate fields) ↔
      Separated sep n (NumeralUpTo radix 255) s := by
  have hfield (field : List Char) : NumeralUpTo radix 255 field ↔
      ∃ v : U8, IsNumeral radix field v.toNat := numeralUpTo_iff (w := 8)
  simp only [Separated, hfield, ← exists_forall₂_iff]
  constructor
  · rintro ⟨a, fields, hreads, hs⟩
    have hlen := (hoctets (octets a)).mpr ⟨a, rfl⟩
    exact ⟨fields, hreads.length_eq.trans hlen, ⟨octets a, hreads⟩, hs⟩
  · rintro ⟨fields, hn, ⟨os, hreads⟩, hs⟩
    obtain ⟨a, rfl⟩ := (hoctets os).mp (hreads.length_eq.symm.trans hn)
    exact ⟨a, fields, hreads, hs⟩

/-- Four octets are an IP address. -/
theorem IpAddr.length_eq_iff (os : List U8) : os.length = 4 ↔ ∃ a : IpAddr, a.octets = os := by
  refine ⟨fun h ↦ ?_, fun ⟨a, ha⟩ ↦ ha ▸ rfl⟩
  match os, h with
  | [o₀, o₁, o₂, o₃], _ => exact ⟨⟨o₀, o₁, o₂, o₃⟩, rfl⟩

/-- Six octets are an Ethernet address. -/
theorem EtherAddr.length_eq_iff (os : List U8) :
    os.length = 6 ↔ ∃ a : EtherAddr, a.octets = os := by
  refine ⟨fun h ↦ ?_, fun ⟨a, ha⟩ ↦ ha ▸ rfl⟩
  match os, h with
  | [o₀, o₁, o₂, o₃, o₄, o₅], _ => exact ⟨⟨o₀, o₁, o₂, o₃, o₄, o₅⟩, rfl⟩

theorem IpAddr.isSome_fromStr_iff (s : List Char) :
    (IpAddr.fromStr s).isSome ↔ IsIpAddr NumeralUpTo s := by
  rw [Option.isSome_iff_exists]
  simp only [IpAddr.fromStr_eq_some_iff]
  exact exists_reads_iff IpAddr.length_eq_iff

theorem EtherAddr.isSome_fromStr_iff (s : List Char) :
    (EtherAddr.fromStr s).isSome ↔ IsEtherAddr NumeralUpTo s := by
  rw [Option.isSome_iff_exists]
  simp only [EtherAddr.fromStr_eq_some_iff]
  exact exists_reads_iff EtherAddr.length_eq_iff

theorem IpEndp.isSome_fromStr_iff (s : List Char) :
    (IpEndp.fromStr s).isSome ↔ IsIpEndp NumeralUpTo s := by
  have hport (port : List Char) : NumeralUpTo 10 65535 port ↔
      ∃ v : U16, IsNumeral 10 port v.toNat := numeralUpTo_iff (w := 16)
  simp only [IsIpEndp, ← IpAddr.isSome_fromStr_iff, hport, Option.isSome_iff_exists,
    IpEndp.fromStr_eq_some_iff]
  constructor
  · rintro ⟨e, addr, port, hs, haddr, hvalue⟩
    exact ⟨addr, port, hs, ⟨e.addr, haddr⟩, e.port, hvalue⟩
  · rintro ⟨addr, port, hs, ⟨a, haddr⟩, v, hvalue⟩
    exact ⟨⟨a, v⟩, addr, port, hs, haddr, hvalue⟩

/-- **The parsers accept their grammar**: for every text, with fields that are runs of ASCII digits
of a value that fits, each perhaps after one plus sign. -/
theorem addr_parsers_accept : AcceptsExactly NumeralUpTo := by
  intro s
  exact ⟨IpAddr.isSome_fromStr_iff s, IpEndp.isSome_fromStr_iff s, EtherAddr.isSome_fromStr_iff s⟩

/-! ## The plus sign -/

/-- Runs of digits have no plus sign in them. -/
theorem Separated.plus_not_mem {sep : Char} (hsep : sep ≠ '+') {n radix max : Nat}
    (hradix : radix ≤ 16) {s : List Char} (h : Separated sep n (RunUpTo radix max) s) :
    '+' ∉ s := by
  obtain ⟨fields, -, hfields, rfl⟩ := h
  intro hmem
  rcases exists_of_mem_intercalate hmem with hplus | ⟨field, hfield, hc⟩
  · exact hsep hplus.symm
  · obtain ⟨n, -, hrun⟩ := hfields field hfield
    exact absurd (hrun.isAlphanum hradix hc) (by decide)

theorem IsIpEndp.plus_not_mem {s : List Char} (h : IsIpEndp RunUpTo s) : '+' ∉ s := by
  obtain ⟨addr, port, rfl, haddr, n, -, hrun⟩ := h
  have haddr : '+' ∉ addr := Separated.plus_not_mem (by decide) (by decide) haddr
  rw [List.mem_append, List.mem_cons]
  rintro (hmem | hmem | hmem)
  · exact haddr hmem
  · exact absurd hmem (by decide)
  · exact absurd (hrun.isAlphanum (by decide) hmem) (by decide)

/-- Each of the parsers accepts a plus sign. -/
theorem plus_sign_accepted :
    ((IpAddr.fromStr "+1.2.3.4".toList).isSome ∧ ¬ IsIpAddr RunUpTo "+1.2.3.4".toList) ∧
      ((IpEndp.fromStr "1.2.3.4:+80".toList).isSome ∧
        ¬ IsIpEndp RunUpTo "1.2.3.4:+80".toList) ∧
      ((EtherAddr.fromStr "2:0:0:0:0:+1".toList).isSome ∧
        ¬ IsEtherAddr RunUpTo "2:0:0:0:0:+1".toList) := by
  refine ⟨⟨by decide +kernel, fun h ↦ ?_⟩, ⟨by decide +kernel, fun h ↦ ?_⟩, by decide +kernel,
    fun h ↦ ?_⟩
  · exact Separated.plus_not_mem (by decide) (by decide) h (by decide)
  · exact h.plus_not_mem (by decide)
  · exact Separated.plus_not_mem (by decide) (by decide) h (by decide)

end Microps
