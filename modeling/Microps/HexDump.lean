import Microps.Addr

/-!
# Hex dumps

`HexDump` of `util.rs`, which every layer writes its packets to the log with: sixteen octets a line,
in hexadecimal and as text.  A text is the list of its characters.

The text is for the eye, and many octets look the same in it; the columns before it are enough to
read the octets back.
-/

namespace Microps.HexDump

open Numeral

/-- The first line and the last one. -/
def border : List Char :=
  "+------+-------------------------------------------------+------------------+".toList

/-- `{:04x}` of an offset. -/
def hex04 (n : Nat) : List Char :=
  let digits := Nat.toDigits 16 n
  List.replicate (4 - digits.length) '0' ++ digits

/-- The columns of the octets, from the one on after which `n` follow; a column that is left over
is blank. -/
def columns : Nat → List U8 → List Char
  | 0, _ => []
  | n + 1, [] => ' ' :: ' ' :: ' ' :: columns n []
  | n + 1, b :: chunk => hex02 b ++ ' ' :: columns n chunk

/-- `b.is_ascii_graphic() || b == b' '`. -/
def shown (b : U8) : Bool := 0x20 ≤ b && b ≤ 0x7e

/-- The octets as text. -/
def text : Nat → List U8 → List Char
  | 0, _ => []
  | n + 1, [] => ' ' :: text n []
  | n + 1, b :: chunk => (if shown b then Char.ofNat b.toNat else '.') :: text n chunk

/-- A line, without its end. -/
def line (offset : Nat) (chunk : List U8) : List Char :=
  '|' :: ' ' :: (hex04 offset ++ ' ' :: '|' :: ' ' :: (columns 16 chunk ++
    '|' :: ' ' :: (text 16 chunk ++ [' ', '|'])))

/-- `data.chunks(16)`. -/
def chunks (data : List U8) : List (List U8) :=
  if data = [] then [] else data.take 16 :: chunks (data.drop 16)
termination_by data.length
decreasing_by
  have := List.length_pos_of_ne_nil ‹data ≠ []›
  simp only [List.length_drop]
  omega

/-- The lines between the borders. -/
def lines (data : List U8) : List (List Char) :=
  (chunks data).zipIdx.map fun chunk ↦ line (chunk.2 * 16) chunk.1

/-- `HexDump::fmt`. -/
def fmt (data : List U8) : List Char :=
  border ++ '\n' :: ((lines data).flatMap (fun l ↦ l ++ ['\n']) ++ border)

/-! ## Reading it back -/

/-- The octets in the columns. -/
def readColumns : List Char → List U8
  | c :: c' :: _ :: s => match parseU8 16 [c, c'] with
    | some b => b :: readColumns s
    | none => []
  | _ => []

/-- The octets of a line: its columns come after the second bar. -/
def readLine (s : List Char) : List U8 :=
  readColumns (((s.drop 1).dropWhile (· ≠ '|')).drop 2)

/-- The octets of a dump. -/
def read (s : List Char) : List U8 := (s.splitOn '\n').flatMap readLine

/-! ## Lines -/

theorem parseU8_hex02 (b : U8) : parseU8 16 (hex02 b) = some b :=
  (parseUint_map_iff (by decide) (by decide)).mpr (isNumeral_hex02 b)

theorem length_hex02 (b : U8) : (hex02 b).length = 2 := by
  have hall : ∀ n < 256, (hex02 (BitVec.ofNat 8 n)).length = 2 := by decide +kernel
  have h := hall b.toNat b.isLt
  rwa [BitVec.ofNat_toNat, BitVec.setWidth_eq] at h

/-- The columns of a chunk are read up to what follows them. -/
theorem readColumns_columns {n : Nat} {chunk : List U8} (hlen : chunk.length ≤ n) (s : List Char) :
    readColumns (columns n chunk ++ '|' :: ' ' :: s) = chunk := by
  induction n generalizing chunk with
  | zero =>
      obtain rfl := List.length_eq_zero_iff.mp (Nat.le_zero.mp hlen)
      cases s with
      | nil => rfl
      | cons c s =>
          have hbar : parseU8 16 ['|', ' '] = none := by decide
          simp only [columns, List.nil_append, readColumns, hbar]
  | succ n ih =>
      cases chunk with
      | nil =>
          have hblank : parseU8 16 [' ', ' '] = none := by decide
          simp only [columns, List.cons_append, readColumns, hblank]
      | cons b chunk =>
          obtain ⟨c, c', hhex⟩ := List.length_eq_two.mp (length_hex02 b)
          have hread := hhex ▸ parseU8_hex02 b
          simp only [columns, hhex, List.cons_append, List.nil_append, readColumns, hread]
          rw [ih (Nat.le_of_succ_le_succ hlen)]

/-- No digit ends the column of the offsets. -/
theorem not_mem_hex04 {c : Char} (hc : c.isAlphanum = false) (n : Nat) : c ∉ hex04 n := by
  intro hmem
  have hrun := (isRun_toDigits (by decide : 1 < 16) n).zeros (by decide)
    (4 - (Nat.toDigits 16 n).length)
  exact absurd (hrun.isAlphanum (by decide) hmem) (by simp [hc])

theorem readLine_line {chunk : List U8} (hlen : chunk.length ≤ 16) (offset : Nat) :
    readLine (line offset chunk) = chunk := by
  have hskip : ((line offset chunk).drop 1).dropWhile (· ≠ '|') =
      '|' :: ' ' :: (columns 16 chunk ++ '|' :: ' ' :: (text 16 chunk ++ [' ', '|'])) := by
    have hoffset : ∀ c ∈ ' ' :: (hex04 offset ++ [' ']), decide (c ≠ '|') = true := by
      intro c hc
      refine decide_eq_true fun hbar ↦ ?_
      have hno := not_mem_hex04 (c := '|') (by decide) offset
      simp [hbar, hno] at hc
    have hsplit : (line offset chunk).drop 1 = (' ' :: (hex04 offset ++ [' '])) ++
        '|' :: ' ' :: (columns 16 chunk ++ '|' :: ' ' :: (text 16 chunk ++ [' ', '|'])) := by
      simp [line]
    rw [hsplit, List.dropWhile_append_of_pos hoffset, List.dropWhile_cons_of_neg (by decide)]
  rw [readLine, hskip]
  exact readColumns_columns hlen _

theorem not_mem_columns {n : Nat} {chunk : List U8} : '\n' ∉ columns n chunk := by
  induction n generalizing chunk with
  | zero => simp [columns]
  | succ n ih =>
      cases chunk with
      | nil => simp [columns, ih]
      | cons b chunk =>
          have hhex : '\n' ∉ hex02 b :=
            (isNumeral_hex02 b).not_mem (by decide) (by decide) (by decide)
          simp [columns, ih, hhex]

theorem not_mem_text {n : Nat} {chunk : List U8} : '\n' ∉ text n chunk := by
  induction n generalizing chunk with
  | zero => simp [text]
  | succ n ih =>
      cases chunk with
      | nil => simp [text, ih]
      | cons b chunk =>
          have hall : ∀ n < 256, '\n' ≠ if shown (BitVec.ofNat 8 n) then Char.ofNat n else '.' := by
            decide +kernel
          have hchar := hall b.toNat b.isLt
          rw [BitVec.ofNat_toNat, BitVec.setWidth_eq] at hchar
          rw [text, List.mem_cons, not_or]
          exact ⟨hchar, ih⟩

theorem not_mem_line (offset : Nat) (chunk : List U8) : '\n' ∉ line offset chunk := by
  simp [line, not_mem_hex04 (c := '\n') (by decide) offset, not_mem_columns, not_mem_text]

/-! ## Whole dumps -/

theorem flatten_chunks (data : List U8) : (chunks data).flatten = data := by
  fun_induction chunks data with
  | case1 => rfl
  | case2 data _ ih => rw [List.flatten_cons, ih, List.take_append_drop]

theorem length_of_mem_chunks {data chunk : List U8} (h : chunk ∈ chunks data) :
    chunk.length ≤ 16 := by
  fun_induction chunks data with
  | case1 => exact absurd h (by simp)
  | case2 data _ ih =>
      rcases List.mem_cons.mp h with rfl | h
      · exact List.length_take_le _ _
      · exact ih h

/-- The lines of a dump. -/
theorem splitOn_fmt (data : List U8) :
    (fmt data).splitOn '\n' = border :: (lines data ++ [border]) := by
  have hjoin : ∀ ls : List (List Char), ls.flatMap (fun l ↦ l ++ ['\n']) ++ border =
      ['\n'].intercalate (ls ++ [border]) := by
    intro ls
    induction ls with
    | nil => simp [List.intercalate]
    | cons l ls ih =>
        rw [List.flatMap_cons, List.append_assoc, ih, List.cons_append,
          List.intercalate_cons_of_ne_nil (by simp)]
  have hfmt : fmt data = ['\n'].intercalate (border :: (lines data ++ [border])) := by
    rw [fmt, hjoin, List.intercalate_cons_of_ne_nil (by simp)]
    simp
  rw [hfmt]
  refine List.splitOn_intercalate _ ?_ (by simp)
  have hborder : '\n' ∉ border := by decide
  intro l hl
  rcases List.mem_cons.mp hl with rfl | hl
  · exact hborder
  rcases List.mem_append.mp hl with hl | hl
  · obtain ⟨chunk, -, rfl⟩ := List.mem_map.mp hl
    exact not_mem_line _ _
  · exact List.mem_singleton.mp hl ▸ hborder

/-! ## Widths -/

theorem length_hex04 {n : Nat} (h : n < 65536) : (hex04 n).length = 4 := by
  have hle := (Nat.length_toDigits_le_iff (by decide : 1 < 16) (by decide : 0 < 4)).mpr h
  simp only [hex04, List.length_append, List.length_replicate]
  omega

theorem length_columns (n : Nat) (chunk : List U8) : (columns n chunk).length = 3 * n := by
  induction n generalizing chunk with
  | zero => rfl
  | succ n ih =>
      cases chunk with
      | nil =>
          simp only [columns, List.length_cons, ih]
          omega
      | cons b chunk =>
          simp only [columns, List.length_append, List.length_cons, length_hex02, ih]
          omega

theorem length_text (n : Nat) (chunk : List U8) : (text n chunk).length = n := by
  induction n generalizing chunk with
  | zero => rfl
  | succ n ih =>
      cases chunk with
      | nil | cons b chunk => rw [text, List.length_cons, ih]

theorem length_line {offset : Nat} (h : offset < 65536) (chunk : List U8) :
    (line offset chunk).length = border.length := by
  have hborder : border.length = 77 := by decide
  simp only [line, List.length_cons, List.length_append, length_hex04 h, length_columns,
    length_text, hborder, List.length_nil]

theorem length_chunks (data : List U8) : (chunks data).length * 16 < data.length + 16 := by
  fun_induction chunks data with
  | case1 => decide
  | case2 data hne ih =>
      have hpos := List.length_pos_of_ne_nil hne
      rw [List.length_drop] at ih
      rw [List.length_cons]
      omega

/-- Offsets of up to four digits keep the lines in line. -/
theorem length_of_mem_lines {data : List U8} {l : List Char} (h : data.length ≤ 65536)
    (hl : l ∈ lines data) : l.length = border.length := by
  obtain ⟨⟨chunk, i⟩, hmem, rfl⟩ := List.mem_map.mp hl
  have hlt : i < (chunks data).length := by simpa using List.snd_lt_of_mem_zipIdx hmem
  have hchunks := length_chunks data
  exact length_line (by omega) chunk

/-! ## What a dump holds -/

theorem read_fmt (data : List U8) : read (fmt data) = data := by
  have hborder : readLine border = [] := by decide
  have hlines : (lines data).flatMap readLine = (chunks data).flatten := by
    have hread : ∀ chunk ∈ (chunks data).zipIdx,
        readLine (line (chunk.2 * 16) chunk.1) = chunk.1 := by
      intro chunk hmem
      exact readLine_line (length_of_mem_chunks (List.fst_mem_of_mem_zipIdx hmem)) _
    rw [lines, List.flatMap_map, List.flatMap_congr hread, List.flatMap_def, List.zipIdx_map_fst]
  rw [read, splitOn_fmt, List.flatMap_cons, List.flatMap_append, hborder, hlines, flatten_chunks]
  simp [hborder]

/-- **A dump is read back**: whatever the octets are, and however many, the lines between the
borders have them all in their order.  All lines are of one width, as long as the offsets have at
most four digits. -/
theorem dump_read_back (data : List U8) : read (fmt data) = data ∧
    (data.length ≤ 65536 → ∀ l ∈ (fmt data).splitOn '\n', l.length = border.length) := by
  refine ⟨read_fmt data, fun hlen l hl ↦ ?_⟩
  rw [splitOn_fmt] at hl
  rcases List.mem_cons.mp hl with rfl | hl
  · rfl
  rcases List.mem_append.mp hl with hl | hl
  · exact length_of_mem_lines hlen hl
  · rw [List.mem_singleton.mp hl]

/-- The header of a packet. -/
def sampleHeader : List U8 :=
  [0x45, 0x00, 0x00, 0x30, 0x00, 0x80, 0x00, 0x00, 0xff, 0x01, 0x2e, 0x4a, 0xc0, 0x00, 0x02, 0x01,
    0xc0, 0x00, 0x02, 0x02]

/-- A full line, and one that is not. -/
theorem dump_read_back_header :
    lines sampleHeader = [line 0 (sampleHeader.take 16), line 16 [0xc0, 0x00, 0x02, 0x02]] ∧
      read (fmt sampleHeader) = sampleHeader ∧
      ∀ l ∈ (fmt sampleHeader).splitOn '\n', l.length = border.length :=
  ⟨by simp [lines, chunks, sampleHeader], (dump_read_back _).1,
    (dump_read_back sampleHeader).2 (by decide)⟩

end Microps.HexDump
