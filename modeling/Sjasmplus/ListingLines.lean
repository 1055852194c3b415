import Sjasmplus.Lib.HexLines
import Sjasmplus.Listing

/-!
# Reading a listing back (`PrepareListLine` and `ListFile` of `sjio.cpp`)

`PrepareListLine` writes the parts of the header over each other, each with the terminator of a text, and
puts a blank in the place of the terminator.  Who reads the listing finds the number of the source line,
the address and the bytes in their columns.

* `listHeader_eq` — the columns of a header whose number fits;
* `readRow_listRow` — the parts of a line are read back, whatever its text is;
* `readRow_listFile` — the lines that `ListFile` adds hold all its bytes, four in each.
-/

namespace Sjasmplus

open HexLines

/-! ### Reading -/

/-- The number with these digits; anything else is skipped. -/
def readNumber (base : Nat) (text : Text) : Nat :=
  (text.filterMap digitValue).foldl (fun n digit => base * n + digit) 0

/-- Bytes of two digits behind a blank, and three dots for bytes that are not listed. -/
def readBytes : Text → List (Option (BitVec 8))
  | a :: b :: c :: text =>
    if a = '.' then none :: readBytes text
    else
      match digitValue b, digitValue c with
      | some high, some low => some (BitVec.ofNat 8 (16 * high + low)) :: readBytes text
      | _, _ => []
  | _ => []

/-- The line shows the number of a source line, not the name of a file. -/
def isNumbered (row : Text) : Bool := row.head? ≠ some '#'

/-- What a line of the listing shows. -/
@[ext] structure ListedRow where
  number : Nat
  address : Nat
  bytes : List (Option (BitVec 8))
deriving DecidableEq, Repr

/-- Read the columns of a line, for a width of the numbers. -/
def readRow (reglenwidth : Nat) (row : Text) : ListedRow where
  number := readNumber 10 (row.take (min reglenwidth 5))
  address := readNumber 16 ((row.drop 6).take 4)
  bytes := readBytes (row.drop 10)

/-- The lines for the bytes of a source line: four bytes in each, and at least one line. -/
def rowsOf (number : Nat) : Nat → List (Option (BitVec 8)) → List ListedRow
  | address, a :: b :: c :: d :: e :: bytes =>
    ⟨number, address % 65536, [a, b, c, d]⟩ :: rowsOf number (address + 4) (e :: bytes)
  | address, bytes => [⟨number, address % 65536, bytes⟩]

/-- All bytes are listed, in their order. -/
theorem flatMap_rowsOf (number address : Nat) (bytes : List (Option (BitVec 8))) :
    (rowsOf number address bytes).flatMap ListedRow.bytes = bytes := by
  fun_induction rowsOf number address bytes with
  | case1 address a b c d e bytes ih => simp [ih]
  | case2 => simp

/-! ### Digits -/

theorem readNumber_toDigits {base : Nat} (hbase : 1 < base) (hsixteen : base ≤ 16) (n : Nat) :
    readNumber base ((Nat.toDigits base n).map Char.toUpper) = n := by
  -- by induction on the number: its last digit is taken off
  induction n using Nat.strongRecOn with
  | ind n ih =>
    rw [Nat.toDigits_eq_if hbase]
    split_ifs with hlast
    · have hvalue : digitValue (Nat.digitChar n).toUpper = some n := digitValue_digit (by omega)
      simp [readNumber, hvalue]
    · have hvalue : digitValue (Nat.digitChar (n % base)).toUpper = some (n % base) :=
        digitValue_digit ((Nat.mod_lt n (by omega)).trans_le hsixteen)
      have hfront := ih (n / base) (Nat.div_lt_self (by omega) hbase)
      rw [readNumber] at hfront
      rw [readNumber, List.map_append, List.filterMap_append, List.foldl_append, hfront]
      simp [hvalue, Nat.div_add_mod]

/-- A number is read back, whatever its width is. -/
theorem readNumber_padded {fill : Char} (width : Nat) {base : Nat} (hbase : 1 < base)
    (hsixteen : base ≤ 16) (hfill : fill = ' ' ∨ fill = '0') (n : Nat) :
    readNumber base (padded fill width base n) = n := by
  -- the digits of the fill are none, or they are zeros
  have hfront : ∀ k, (List.replicate k fill).filterMap digitValue = [] ∨
      ∃ j, (List.replicate k fill).filterMap digitValue = List.replicate j 0 := by
    intro k
    rcases hfill with rfl | rfl
    · exact .inl (List.filterMap_replicate_of_none rfl)
    · exact .inr ⟨k, List.filterMap_replicate_of_some rfl⟩
  have hzeros : ∀ j, (List.replicate j 0).foldl (fun n digit => base * n + digit) 0 = 0 := by
    intro j
    induction j with
    | zero => rfl
    | succ j ih => simpa [List.replicate_succ] using ih
  have hdigits := readNumber_toDigits hbase hsixteen n
  rw [readNumber] at hdigits
  rw [padded, readNumber, List.filterMap_append, List.foldl_append]
  rcases hfront (width - ((Nat.toDigits base n).map Char.toUpper).length) with hnone | ⟨j, hsome⟩
  · rw [hnone, List.foldl_nil, hdigits]
  · rw [hsome, hzeros, hdigits]

theorem length_padded {fill : Char} {width base n : Nat} (hwidth : 0 < width) (h : n < base ^ width) :
    (padded fill width base n).length = width := by
  have hdigits : (Nat.toDigits base n).length ≤ width := Nat.toDigits_length base n width hwidth h
  simp only [padded, List.length_append, List.length_replicate, List.length_map]
  omega

/-- A digit is a digit in upper case as well, and it is no white space. -/
theorem toUpper_digitChar {d : Nat} (hd : d < 16) :
    '0' ≤ (Nat.digitChar d).toUpper ∧ white (Nat.digitChar d).toUpper = false := by
  revert d
  decide

theorem exists_of_mem_toDigits {base n : Nat} {c : Char} (hbase : 1 < base)
    (h : c ∈ Nat.toDigits base n) : ∃ d < base, c = Nat.digitChar d := by
  induction n using Nat.strongRecOn with
  | ind n ih =>
    rw [Nat.toDigits_eq_if hbase] at h
    split_ifs at h with hlast
    · exact ⟨n, hlast, List.mem_singleton.mp h⟩
    · rcases List.mem_append.mp h with hmem | hmem
      · exact ih (n / base) (Nat.div_lt_self (by omega) hbase) hmem
      · exact ⟨n % base, Nat.mod_lt n (by omega), List.mem_singleton.mp hmem⟩

/-- A number is written with digits, and with the character in front of them. -/
theorem mem_padded {fill c : Char} {width base n : Nat} (hbase : 1 < base) (hsixteen : base ≤ 16)
    (h : c ∈ padded fill width base n) : c = fill ∨ '0' ≤ c := by
  rcases List.mem_append.mp h with hmem | hmem
  · exact .inl (List.eq_of_mem_replicate hmem)
  · obtain ⟨c, hc, rfl⟩ := List.mem_map.mp hmem
    obtain ⟨d, hd, rfl⟩ := exists_of_mem_toDigits hbase hc
    exact .inr (toUpper_digitChar (hd.trans_le hsixteen)).1

/-- No number is written with the terminator of a text. -/
theorem not_mem_padded {fill : Char} {width base n : Nat} (hbase : 1 < base) (hsixteen : base ≤ 16)
    (hfill : '\x00' ≠ fill) : '\x00' ∉ padded fill width base n := by
  intro h
  rcases mem_padded hbase hsixteen h with heq | hdigit
  · exact hfill heq
  · exact absurd hdigit (by decide)

/-- A number ends with a digit. -/
theorem exists_padded_eq (fill : Char) (width n : Nat) {base : Nat} (hbase : 1 < base)
    (hsixteen : base ≤ 16) :
    ∃ front c, padded fill width base n = front ++ [c] ∧ white c = false := by
  have hlast : ∃ front d, Nat.toDigits base n = front ++ [Nat.digitChar d] ∧ d < base := by
    rw [Nat.toDigits_eq_if hbase]
    split_ifs with h
    · exact ⟨[], n, rfl, h⟩
    · exact ⟨_, n % base, rfl, Nat.mod_lt n (by omega)⟩
  obtain ⟨front, d, hfront, hd⟩ := hlast
  refine ⟨List.replicate (width - (Nat.toDigits base n).length) fill ++ front.map Char.toUpper,
    (Nat.digitChar d).toUpper, ?_, (toUpper_digitChar (hd.trans_le hsixteen)).2⟩
  rw [padded, List.length_map, hfront, List.map_append, ← List.append_assoc]
  rfl

/-! ### The header of a line -/

section

variable {front text : Text} {k n : Nat}

/-- A text that is written over blanks. -/
theorem overlay_blanks (back : Text) (hn : front.length = n) (htext : text.length ≤ k) :
    overlay n text (front ++ (List.replicate k ' ' ++ back)) =
      front ++ (text ++ (List.replicate (k - text.length) ' ' ++ back)) := by
  obtain ⟨j, rfl⟩ := Nat.exists_eq_add_of_le htext
  have hblanks : (List.replicate (text.length + j) ' ' ++ back).drop text.length
      = List.replicate j ' ' ++ back := by
    rw [List.replicate_add, List.append_assoc, List.drop_left' List.length_replicate]
  rw [overlay, ← hn, List.take_left, List.take_of_length_le, ← List.drop_drop, List.drop_left, hblanks,
    Nat.add_sub_cancel_left, List.append_assoc]
  simp only [List.length_append, List.length_replicate]
  omega

/-- A text with its terminator, which a blank replaces. -/
theorem set_overlay_blanks (back : Text) (hn : front.length = n) (htext : text.length < k) :
    (overlay n (text ++ ['\x00']) (front ++ (List.replicate k ' ' ++ back))).set (n + text.length) ' ' =
      front ++ (text ++ (List.replicate (k - text.length) ' ' ++ back)) := by
  obtain ⟨j, rfl⟩ : ∃ j, k = text.length + 1 + j := ⟨k - (text.length + 1), by omega⟩
  have hleft : text.length + 1 + j - (text ++ ['\x00']).length = j := by
    rw [List.length_append, List.length_singleton]
    omega
  have hblanks : text.length + 1 + j - text.length = j + 1 := by omega
  rw [overlay_blanks back hn (by rw [List.length_append, List.length_singleton]; omega), hleft, hblanks,
    List.replicate_succ, ← hn]
  simp

end

section

variable {type : ELstType} {hexadd : Nat} {s : ListingState}

/-- The column of the number. -/
def numberColumn (s : ListingState) : Text := padded ' ' (min s.reglenwidth 5) 10 s.pos.line

/-- The columns between the number and the address, with a plus for each level of including. -/
def levelColumns (s : ListingState) : Text :=
  let width := 6 - min s.reglenwidth 5
  List.replicate (min s.includeLevel width) '+' ++ List.replicate (width - min s.includeLevel width) ' '

/-- The columns of the address. -/
def addressColumns (hexadd : Nat) : Text := padded '0' 4 16 (hexadd % 65536)

/-- The mark of machine code or of a macro. -/
def markColumn (type : ELstType) (s : ListingState) : Char :=
  if type = .mcOnly then '\x7b' else if s.listmacro then '>' else ' '

theorem blankHeader_eq (type : ELstType) (s : ListingState) :
    blankHeader type s = List.replicate 23 ' ' ++ [markColumn type s] := by
  rw [blankHeader, markColumn]
  split_ifs <;> rfl

theorem length_addressColumns (hexadd : Nat) : (addressColumns hexadd).length = 4 :=
  length_padded (by decide) (Nat.mod_lt _ (by decide))

theorem length_levelColumns (s : ListingState) :
    (levelColumns s).length = 6 - min s.reglenwidth 5 := by
  simp only [levelColumns, List.length_append, List.length_replicate]
  omega

/-- The number fits its column. -/
structure FitsColumn (s : ListingState) : Prop where
  width : 0 < s.reglenwidth
  line : s.pos.line < 10 ^ min s.reglenwidth 5

theorem FitsColumn.length_numberColumn (hs : FitsColumn s) :
    (numberColumn s).length = min s.reglenwidth 5 := by
  have hwidth := hs.width
  exact length_padded (by omega) hs.line

theorem FitsColumn.headerNumber_lt (hs : FitsColumn s) :
    headerNumber s < 10 ^ min s.reglenwidth 5 := by
  rw [headerNumber]
  split_ifs with hfive
  · rw [min_eq_right hfive.1]
    omega
  · exact (Nat.mod_le _ _).trans_lt hs.line

/-- A number of five digits. -/
theorem padded_five {n : Nat} (hlow : 10000 ≤ n) (hhigh : n < 100000) : padded ' ' 5 10 n =
    [Nat.digitChar (n / 10000), Nat.digitChar (n / 1000 % 10), Nat.digitChar (n / 100 % 10),
      Nat.digitChar (n / 10 % 10), Nat.digitChar (n % 10)] := by
  have hdigits : Nat.toDigits 10 n =
      [Nat.digitChar (n / 10000), Nat.digitChar (n / 1000 % 10), Nat.digitChar (n / 100 % 10),
        Nat.digitChar (n / 10 % 10), Nat.digitChar (n % 10)] := by
    rw [Nat.toDigits_of_base_le (by decide) (by omega), Nat.toDigits_of_base_le (by decide) (by omega),
      Nat.toDigits_of_base_le (by decide) (by omega), Nat.toDigits_of_base_le (by decide) (by omega),
      Nat.toDigits_of_lt_base (by omega)]
    simp [Nat.div_div_eq_div_mul]
  have hupper : ∀ d < 10, (Nat.digitChar d).toUpper = Nat.digitChar d := by decide
  rw [padded, hdigits]
  simp [hupper, show n / 10000 < 10 by omega, Nat.mod_lt]

/-- The leading digit in front of the rest. -/
theorem set_leading {n : Nat} (hlow : 10000 ≤ n) (hhigh : n < 100000) :
    (padded ' ' 5 10 (n % 10000 + 10000)).set 0 (Char.ofNat (min (n / 10000 + 48) 126)) =
      padded ' ' 5 10 n := by
  have hdigit : ∀ d < 10, Char.ofNat (min (d + 48) 126) = Nat.digitChar d := by decide
  rw [padded_five (by omega) (by omega), padded_five hlow hhigh, hdigit _ (by omega),
    show (n % 10000 + 10000) / 1000 % 10 = n / 1000 % 10 by omega,
    show (n % 10000 + 10000) / 100 % 10 = n / 100 % 10 by omega,
    show (n % 10000 + 10000) / 10 % 10 = n / 10 % 10 by omega,
    show (n % 10000 + 10000) % 10 = n % 10 by omega]
  rfl

/-- The leading digit makes the number of the source line of what was printed. -/
theorem FitsColumn.leading (hs : FitsColumn s) (back : Text) :
    (if 48 < headerDigit s then
        (padded ' ' (min s.reglenwidth 5) 10 (headerNumber s) ++ back).set 0
          (Char.ofNat (headerDigit s))
      else padded ' ' (min s.reglenwidth 5) 10 (headerNumber s) ++ back) = numberColumn s ++ back := by
  have hline := hs.line
  rw [numberColumn]
  by_cases hfive : 5 ≤ s.reglenwidth ∧ 10000 ≤ s.pos.line
  · -- the leading digit takes the place of the one that stands for ten thousand
    rw [min_eq_right hfive.1] at hline ⊢
    have hdigit : headerDigit s = min (s.pos.line / 10000 + 48) 126 := if_pos hfive.1
    have hnumber : headerNumber s = s.pos.line % 10000 + 10000 := by
      rw [headerNumber, if_pos hfive]
    have hlength : 0 < (padded ' ' 5 10 (s.pos.line % 10000 + 10000)).length := by
      rw [length_padded (by decide) (by omega)]
      decide
    rw [if_pos (by omega), hdigit, hnumber, List.set_append_left 0 _ hlength,
      set_leading hfive.2 hline]
  · have hsmall : s.pos.line < 10000 := by
      by_contra hlarge
      have hpow : 10 ^ min s.reglenwidth 5 ≤ 10 ^ 4 := Nat.pow_le_pow_right (by decide) (by omega)
      omega
    have hdigit : ¬ 48 < headerDigit s := by
      rw [headerDigit]
      split_ifs <;> omega
    rw [if_neg hdigit, headerNumber, if_neg hfive, Nat.mod_eq_of_lt hsmall, Nat.add_zero]

/-- **The columns of the header**, when the number fits. -/
theorem listHeader_eq (type : ELstType) (hexadd : Nat) (hs : FitsColumn s) :
    listHeader type hexadd s = numberColumn s ++ (levelColumns s ++ (addressColumns hexadd ++
      (List.replicate 13 ' ' ++ [markColumn type s]))) := by
  have hwidth := hs.width
  have hnumber : (padded ' ' (min s.reglenwidth 5) 10 (headerNumber s)).length = min s.reglenwidth 5 :=
    length_padded (by omega) hs.headerNumber_lt
  have haddress := length_addressColumns hexadd
  have hfirst := set_overlay_blanks [markColumn type s] (List.length_nil (α := Char))
    (show (padded ' ' (min s.reglenwidth 5) 10 (headerNumber s)).length < 23 by omega)
  rw [Nat.zero_add, hnumber, List.nil_append, List.nil_append] at hfirst
  -- the pluses stand behind the number, and blanks are left in front of the address
  have hsecond := overlay_blanks [markColumn type s] hnumber
    (show (List.replicate (min s.includeLevel (6 - min s.reglenwidth 5)) '+').length
        ≤ 23 - min s.reglenwidth 5 by rw [List.length_replicate]; omega)
  have hblanks : 23 - min s.reglenwidth 5
        - (List.replicate (min s.includeLevel (6 - min s.reglenwidth 5)) '+').length
      = (6 - min s.reglenwidth 5 - min s.includeLevel (6 - min s.reglenwidth 5)) + 17 := by
    rw [List.length_replicate]
    omega
  have hfront : (padded ' ' (min s.reglenwidth 5) 10 (headerNumber s) ++ levelColumns s).length = 6 := by
    rw [List.length_append, hnumber, length_levelColumns]
    omega
  have hthird := set_overlay_blanks [markColumn type s] hfront
    (show (addressColumns hexadd).length < 17 by omega)
  rw [haddress] at hthird
  rw [listHeader, blankHeader_eq, hfirst, hsecond, hblanks, List.replicate_add]
  have hleading := hs.leading (levelColumns s ++ (addressColumns hexadd ++
    (List.replicate 13 ' ' ++ [markColumn type s])))
  simp only [levelColumns, addressColumns, List.append_assoc] at hthird hleading ⊢
  rw [hthird]
  exact hleading

/-! ### The bytes of a line -/

/-- A byte in two digits. -/
theorem padded_two {n : Nat} (hn : n < 256) : padded '0' 2 16 n = [digit (n / 16), digit (n % 16)] := by
  by_cases hsmall : n < 16
  · rw [padded, Nat.toDigits_of_lt_base hsmall, Nat.div_eq_of_lt hsmall, Nat.mod_eq_of_lt hsmall]
    rfl
  · rw [padded, Nat.toDigits_of_base_le (by decide) (by omega), Nat.toDigits_of_lt_base (by omega)]
    rfl

theorem readBytes_listBytes (bytes : List (Option (BitVec 8))) (rest : Text) :
    readBytes (listBytes bytes ++ rest) = bytes ++ readBytes rest := by
  -- by induction on the bytes: each of them is printed behind a blank
  induction bytes with
  | nil => rfl
  | cons byte bytes ih =>
    cases byte with
    | none =>
      show none :: readBytes (listBytes bytes ++ rest) = _
      rw [ih]
      rfl
    | some byte =>
      have hbyte := byte.isLt
      have hvalue : BitVec.ofNat 8 (16 * (byte.toNat / 16) + byte.toNat % 16) = byte := by
        rw [Nat.div_add_mod, BitVec.ofNat_toNat, BitVec.setWidth_eq]
      have hlist : listBytes (some byte :: bytes) ++ rest = ' ' :: digit (byte.toNat / 16)
          :: digit (byte.toNat % 16) :: (listBytes bytes ++ rest) := by
        show ' ' :: padded '0' 2 16 byte.toNat ++ listBytes bytes ++ rest = _
        rw [padded_two hbyte]
        rfl
      rw [hlist, readBytes, if_neg (by decide), digitValue_digit (by omega), digitValue_digit (by omega),
        ih]
      exact congrArg (fun b => some b :: (bytes ++ readBytes rest)) hvalue

theorem length_listBytes (bytes : List (Option (BitVec 8))) :
    (listBytes bytes).length = 3 * bytes.length := by
  induction bytes with
  | nil => rfl
  | cons byte bytes ih =>
    cases byte with
    | none =>
      show (listBytes bytes).length + 3 = _
      rw [ih, List.length_cons]
      omega
    | some byte =>
      have hbyte := byte.isLt
      show (' ' :: padded '0' 2 16 byte.toNat ++ listBytes bytes).length = _
      rw [padded_two hbyte, List.length_append, ih, List.length_cons, List.length_cons, List.length_cons,
        List.length_nil, List.length_cons]
      omega

/-- No terminator is in the text of the bytes. -/
theorem not_mem_listBytes (bytes : List (Option (BitVec 8))) : '\x00' ∉ listBytes bytes := by
  intro h
  obtain ⟨byte, -, hmem⟩ := List.mem_flatMap.mp h
  cases byte with
  | none => exact absurd hmem (by decide)
  | some byte =>
    rcases List.mem_cons.mp hmem with hblank | hmem
    · exact absurd hblank (by decide)
    · exact not_mem_padded (by decide) (by decide) (by decide) hmem

/-- The text up to the last byte, or to the address, does not end with white space. -/
theorem exists_addressColumns_listBytes (hexadd : Nat) (bytes : List (Option (BitVec 8))) :
    ∃ front c, addressColumns hexadd ++ listBytes bytes = front ++ [c] ∧ white c = false := by
  -- the address ends the text, or the last byte does
  rcases List.eq_nil_or_concat bytes with rfl | ⟨bytes, byte, rfl⟩
  · rw [listBytes, List.flatMap_nil, List.append_nil]
    exact exists_padded_eq '0' 4 _ (by decide) (by decide)
  · obtain ⟨front, c, hlast, hc⟩ : ∃ front c, listBytes [byte] = front ++ [c] ∧ white c = false := by
      cases byte with
      | none => exact ⟨['.', '.'], '.', rfl, rfl⟩
      | some byte =>
        obtain ⟨front, c, hfront, hc⟩ :=
          exists_padded_eq '0' 2 byte.toNat (show 1 < 16 by decide) le_rfl
        refine ⟨' ' :: front, c, ?_, hc⟩
        show ' ' :: padded '0' 2 16 byte.toNat ++ [] = _
        rw [hfront, List.append_nil]
        rfl
    refine ⟨addressColumns hexadd ++ (listBytes bytes ++ front), c, ?_, hc⟩
    have happend : listBytes (bytes ++ [byte]) = listBytes bytes ++ listBytes [byte] :=
      List.flatMap_append
    rw [List.concat_eq_append, happend, hlast]
    simp only [List.append_assoc]

/-- Behind the bytes stands a blank, and then no digit. -/
theorem readBytes_of_prefix {c : Char} (hc : digitValue c = none) {row rest : Text}
    (h : row <+: ' ' :: c :: rest) : readBytes row = [] := by
  rcases row with _ | ⟨x, _ | ⟨y, _ | ⟨z, row⟩⟩⟩
  · rfl
  · rfl
  · rfl
  · obtain ⟨rfl, hbehind⟩ := List.cons_prefix_cons.mp h
    obtain ⟨rfl, -⟩ := List.cons_prefix_cons.mp hbehind
    rw [readBytes, if_neg (by decide), hc]

/-- What is left of the rest of a line, without white space at its end and up to a terminator. -/
theorem readBytes_behind {c : Char} (hc : digitValue c = none) (text : Text) :
    readBytes (((' ' :: c :: text).rdropWhile white ++ ['\n']).takeWhile (· ≠ '\x00')) = [] := by
  have hend := List.takeWhile_prefix (l := (' ' :: c :: text).rdropWhile white ++ ['\n'])
    (· ≠ '\x00')
  have htrim := List.rdropWhile_prefix white (l := ' ' :: c :: text)
  generalize (' ' :: c :: text).rdropWhile white = kept at hend htrim ⊢
  generalize (kept ++ ['\n']).takeWhile (· ≠ '\x00') = row at hend ⊢
  -- trimming leaves nothing, the blank, or the character behind it as well
  rcases kept with _ | ⟨x, _ | ⟨y, kept⟩⟩
  · have hlength := hend.length_le
    rcases row with _ | ⟨a, _ | ⟨b, row⟩⟩
    · rfl
    · rfl
    · simp at hlength
  · obtain ⟨rfl, -⟩ := List.cons_prefix_cons.mp htrim
    exact readBytes_of_prefix (show digitValue '\n' = none from rfl) hend
  · obtain ⟨rfl, hbehind⟩ := List.cons_prefix_cons.mp htrim
    obtain ⟨rfl, -⟩ := List.cons_prefix_cons.mp hbehind
    exact readBytes_of_prefix hc hend

theorem rdropWhile_append_last {p : Char → Bool} {front : Text} {c : Char} (hc : p c = false)
    (r : Text) : (front ++ [c] ++ r).rdropWhile p = front ++ [c] ++ r.rdropWhile p := by
  have hback : (c :: front.reverse).dropWhile p = c :: front.reverse :=
    List.dropWhile_cons_of_neg (by simp [hc])
  rw [List.rdropWhile, List.rdropWhile, List.reverse_append, List.dropWhile_append]
  split_ifs with hempty
  · rw [List.isEmpty_iff] at hempty
    simp [hempty, hback]
  · simp

/-- The header with its bytes, and with the mark of a skipped line. -/
theorem exists_header_eq (type : ELstType) (hexadd : Nat) (hs : FitsColumn s) {showAsSkipped : Bool}
    {bytes : List (Option (BitVec 8))} (hbytes : bytes.length ≤ 4)
    (hskipped : showAsSkipped = true → bytes = []) :
    ∃ c rest, digitValue c = none ∧
      (if showAsSkipped then
          (overlay 10 (listBytes bytes ++ [' ']) (listHeader type hexadd s)).set 11 '~'
        else overlay 10 (listBytes bytes ++ [' ']) (listHeader type hexadd s)) =
      numberColumn s ++ (levelColumns s ++ (addressColumns hexadd ++ (listBytes bytes
        ++ ' ' :: c :: rest))) := by
  have hmark : digitValue (markColumn type s) = none := by
    rw [markColumn]
    split_ifs <;> rfl
  have hlength : (numberColumn s ++ (levelColumns s ++ addressColumns hexadd)).length = 10 := by
    have hwidth := hs.width
    simp only [List.length_append, hs.length_numberColumn, length_levelColumns, length_addressColumns]
    omega
  have hfits : (listBytes bytes ++ [' ']).length ≤ 13 := by
    rw [List.length_append, length_listBytes, List.length_singleton]
    omega
  have hover := overlay_blanks [markColumn type s] hlength hfits
  simp only [List.append_assoc] at hover
  rw [listHeader_eq type hexadd hs, hover]
  cases showAsSkipped with
  | true =>
    obtain rfl := hskipped rfl
    refine ⟨'~', List.replicate 11 ' ' ++ [markColumn type s], rfl, ?_⟩
    rw [if_pos rfl, ← List.append_assoc, ← List.append_assoc,
      List.set_append_right _ _ (by simp only [List.append_assoc, hlength]; decide)]
    simp only [List.append_assoc, hlength]
    rfl
  | false =>
    rw [if_neg Bool.false_ne_true]
    have hbehind : 13 - (listBytes bytes ++ [' ']).length = 12 - 3 * bytes.length := by
      rw [List.length_append, length_listBytes, List.length_singleton]
      omega
    rw [hbehind]
    rcases hleft : 12 - 3 * bytes.length with _ | left
    · exact ⟨markColumn type s, [], hmark, rfl⟩
    · exact ⟨' ', List.replicate left ' ' ++ [markColumn type s], rfl, rfl⟩

/-- The columns of a line stand in front of its text. -/
theorem exists_listRow_eq (type : ELstType) (hideSource : Bool) (hexadd : Nat) (hs : FitsColumn s)
    {showAsSkipped : Bool} {bytes : List (Option (BitVec 8))} (hbytes : bytes.length ≤ 4)
    (hskipped : showAsSkipped = true → bytes = []) : ∃ behind,
      listRow type showAsSkipped hideSource hexadd bytes s
        = numberColumn s ++ levelColumns s ++ (addressColumns hexadd ++ listBytes bytes) ++ behind ∧
      readBytes behind = [] := by
  obtain ⟨c, rest, hc, hheader⟩ := exists_header_eq type hexadd hs hbytes hskipped
  obtain ⟨front, last, hfront, hlast⟩ := exists_addressColumns_listBytes hexadd bytes
  have hterminator : ∀ d ∈ numberColumn s ++ levelColumns s ++ (front ++ [last]),
      decide (d ≠ '\x00') = true := by
    rw [← hfront]
    intro d hd
    rw [decide_eq_true_eq]
    rintro rfl
    rcases List.mem_append.mp hd with hd | hd
    · rcases List.mem_append.mp hd with hd | hd
      · exact not_mem_padded (by decide) (by decide) (by decide) hd
      · rcases List.mem_append.mp hd with hd | hd
        · exact absurd (List.eq_of_mem_replicate hd) (by decide)
        · exact absurd (List.eq_of_mem_replicate hd) (by decide)
    · rcases List.mem_append.mp hd with hd | hd
      · exact not_mem_padded (by decide) (by decide) (by decide) hd
      · exact not_mem_listBytes bytes hd
  refine ⟨_, ?_, readBytes_behind hc (rest ++ if hideSource then [] else listText s)⟩
  rw [listRow, hheader, hfront, ← List.takeWhile_append_of_pos hterminator]
  have hsplit : numberColumn s ++ (levelColumns s ++ (addressColumns hexadd ++ (listBytes bytes
        ++ ' ' :: c :: rest))) ++ (if hideSource then [] else listText s)
      = numberColumn s ++ levelColumns s ++ front ++ [last] ++
        (' ' :: c :: (rest ++ if hideSource then [] else listText s)) := by
    rw [← List.append_assoc (addressColumns hexadd), hfront]
    simp
  -- the white space at the end is behind these columns
  rw [hsplit, rdropWhile_append_last hlast]
  simp only [List.append_assoc]

/-- **A line of the listing is read back**, whatever text stands in it. -/
theorem readRow_listRow (type : ELstType) (hideSource : Bool) (hexadd : Nat) (hs : FitsColumn s)
    {showAsSkipped : Bool} {bytes : List (Option (BitVec 8))} (hbytes : bytes.length ≤ 4)
    (hskipped : showAsSkipped = true → bytes = []) :
    isNumbered (listRow type showAsSkipped hideSource hexadd bytes s) = true ∧
      readRow s.reglenwidth (listRow type showAsSkipped hideSource hexadd bytes s)
        = ⟨s.pos.line, hexadd % 65536, bytes⟩ := by
  obtain ⟨behind, hrow, hbehind⟩ := exists_listRow_eq type hideSource hexadd hs hbytes hskipped
  have hnumber := hs.length_numberColumn
  have hsix : (numberColumn s ++ levelColumns s).length = 6 := by
    rw [List.length_append, hnumber, length_levelColumns]
    omega
  -- a line starts with a digit or a blank, never with the mark of a file name
  have hnumbered : isNumbered (listRow type showAsSkipped hideSource hexadd bytes s) = true := by
    rw [isNumbered, decide_eq_true_eq, hrow]
    rcases hcolumn : numberColumn s with _ | ⟨c, column⟩
    · have hwidth := hs.width
      rw [hcolumn] at hnumber
      simp only [List.length_nil] at hnumber
      omega
    · rintro heq
      obtain rfl : c = '#' := Option.some.inj heq
      have hmem : '#' ∈ numberColumn s := hcolumn ▸ List.mem_cons_self
      exact absurd (mem_padded (by decide) (by decide) hmem) (by decide)
  refine ⟨hnumbered, ?_⟩
  rw [hrow]
  ext1
  -- the three fields are read at their columns
  · show readNumber 10 _ = _
    rw [List.append_assoc, List.append_assoc, List.take_left' hnumber]
    exact readNumber_padded _ (by decide) (by decide) (.inl rfl) _
  · show readNumber 16 _ = _
    rw [List.append_assoc, List.drop_left' hsix, List.append_assoc,
      List.take_left' (length_addressColumns hexadd)]
    exact readNumber_padded 4 (by decide) (by decide) (.inr rfl) _
  · show readBytes _ = _
    have hten : (numberColumn s ++ levelColumns s ++ addressColumns hexadd).length = 10 := by
      rw [List.length_append, hsix, length_addressColumns]
    rw [← List.append_assoc (numberColumn s ++ levelColumns s), List.append_assoc,
      List.drop_left' hten, readBytes_listBytes, hbehind, List.append_nil]

/-! ### The lines of a call -/

theorem rowsOf_of_le (number address : Nat) {bytes : List (Option (BitVec 8))} (h : bytes.length ≤ 4) :
    rowsOf number address bytes = [⟨number, address % 65536, bytes⟩] := by
  rcases bytes with _ | ⟨a, _ | ⟨b, _ | ⟨c, _ | ⟨d, _ | ⟨e, bytes⟩⟩⟩⟩⟩
  · rfl
  · rfl
  · rfl
  · rfl
  · rfl
  · simp only [List.length_cons] at h
    omega

theorem rowsOf_of_gt (number address : Nat) {bytes : List (Option (BitVec 8))} (h : 4 < bytes.length) :
    rowsOf number address bytes = ⟨number, address % 65536, bytes.take 4⟩
      :: rowsOf number (address + 4) (bytes.drop 4) := by
  rcases bytes with _ | ⟨a, _ | ⟨b, _ | ⟨c, _ | ⟨d, _ | ⟨e, bytes⟩⟩⟩⟩⟩
  · simp at h
  · simp at h
  · simp at h
  · simp at h
  · simp at h
  · rfl

/-- A turn adds a line with up to four bytes. -/
theorem listing_listTurn (type : ELstType) (hs : FitsColumn s) {showAsSkipped : Bool}
    (hskipped : showAsSkipped = true → s.listEmittedBytes = []) :
    ∃ row, (listTurn type showAsSkipped s).listing = s.listing ++ [row] ∧ isNumbered row = true ∧
      readRow s.reglenwidth row
        = ⟨s.pos.line, s.listAddress % 65536, s.listEmittedBytes.take 4⟩ := by
  have hfour : (s.listEmittedBytes.take 4).length ≤ 4 := List.length_take_le ..
  cases showAsSkipped with
  | true =>
    have hnone : s.listEmittedBytes.take 4 = [] := by rw [hskipped rfl, List.take_nil]
    have hplain : FitsColumn { s with substitutedLine := none } := ⟨hs.width, hs.line⟩
    exact ⟨_, rfl, readRow_listRow type false _ hplain hfour fun _ => hnone⟩
  | false => exact ⟨_, rfl, readRow_listRow type _ _ hs hfour nofun⟩

/-- The lines for the bytes of a call. -/
theorem listing_listRows (type : ELstType) {showAsSkipped : Bool} {fuel : Nat} (hs : FitsColumn s)
    (hskipped : showAsSkipped = true → s.listEmittedBytes = [])
    (hfuel : s.listEmittedBytes.length < fuel) :
    ∃ rows, (listRows type showAsSkipped fuel s).listing = s.listing ++ rows ∧
      (∀ row ∈ rows, isNumbered row = true) ∧
        rows.map (readRow s.reglenwidth) = rowsOf s.pos.line s.listAddress s.listEmittedBytes := by
  -- by induction on the fuel: a turn prints four bytes
  induction fuel generalizing s with
  | zero => exact absurd hfuel (Nat.not_lt_zero _)
  | succ fuel ih =>
    obtain ⟨row, hrow, hnumbered, hread⟩ := listing_listTurn type hs hskipped
    have hsame : (listTurn type showAsSkipped s).reglenwidth = s.reglenwidth ∧
        (listTurn type showAsSkipped s).pos = s.pos ∧
        (listTurn type showAsSkipped s).listEmittedBytes = s.listEmittedBytes.drop 4 ∧
        (listTurn type showAsSkipped s).listAddress
          = s.listAddress + (s.listEmittedBytes.take 4).length := by
      cases showAsSkipped <;> exact ⟨rfl, rfl, rfl, rfl⟩
    obtain ⟨hwidth, hpos, hleft, haddress⟩ := hsame
    rw [listRows, hleft]
    -- no byte is left behind the last turn
    by_cases hlast : s.listEmittedBytes.length ≤ 4
    · rw [List.drop_eq_nil_of_le hlast, if_pos rfl]
      refine ⟨[row], hrow, by simpa using hnumbered, ?_⟩
      rw [List.map_singleton, hread, rowsOf_of_le _ _ hlast, List.take_of_length_le hlast]
    · have hmore : 4 < s.listEmittedBytes.length := Nat.not_le.mp hlast
      -- a skipped line has no bytes, so that it is printed in one turn
      have hnotSkipped : ¬ showAsSkipped = true := fun h => by
        rw [hskipped h] at hmore
        exact absurd hmore (Nat.not_lt_zero 4)
      have hnext : s.listEmittedBytes.drop 4 ≠ [] := by
        rw [Ne, List.drop_eq_nil_iff]
        exact hlast
      have hfour : (s.listEmittedBytes.take 4).length = 4 := List.length_take_of_le hmore.le
      rw [if_neg hnext]
      obtain ⟨rows, hrows, hall, hreads⟩ := ih (s := listTurn type showAsSkipped s)
        ⟨by rw [hwidth]; exact hs.width, by rw [hwidth, hpos]; exact hs.line⟩
        (fun h => absurd h hnotSkipped) (by rw [hleft, List.length_drop]; omega)
      rw [hwidth, hpos, hleft, haddress, hfour] at hreads
      refine ⟨row :: rows, ?_, List.forall_mem_cons.mpr ⟨hnumbered, hall⟩, ?_⟩
      · rw [hrows, hrow, List.append_assoc]
        rfl
      · rw [List.map_cons, hread, hreads, rowsOf_of_gt _ _ hmore]

/-- The call lists something: in the last pass, with a listing that is not suspended, and a line that
the options do not leave out. -/
def Lists (env : ListingContext) (showAsSkipped : Bool) (s : ListingState) : Prop :=
  env.isLastPass = true ∧ env.hasListingFile = true ∧ s.donotlist = false ∧
    env.isListingSuspended = false ∧ ¬ (showAsSkipped = true ∧ env.listingType = .active) ∧
    ¬ (env.listingType = .mcOnly ∧ s.listEmittedBytes = [])

instance (env : ListingContext) (showAsSkipped : Bool) (s : ListingState) :
    Decidable (Lists env showAsSkipped s) :=
  inferInstanceAs (Decidable (_ ∧ _))

/-- **The lines that `ListFile` adds** show the number of the source line, and its bytes at their
addresses. -/
theorem readRow_listFile (env : ListingContext) (hs : FitsColumn s) {showAsSkipped : Bool}
    (hskipped : showAsSkipped = true → s.listEmittedBytes = []) :
    ∃ rows, (listFile env showAsSkipped s).listing = s.listing ++ rows ∧
      (∀ row ∈ rows, isNumbered row = true) ∧ rows.map (readRow s.reglenwidth) =
        if Lists env showAsSkipped s then rowsOf s.pos.line s.listAddress s.listEmittedBytes
        else [] := by
  have hnone : ∃ rows, s.listing = s.listing ++ rows ∧ (∀ row ∈ rows, isNumbered row = true) ∧
      rows.map (readRow s.reglenwidth) = [] :=
    ⟨[], (List.append_nil _).symm, nofun, rfl⟩
  -- otherwise one of the tests of the source returns early
  by_cases hlists : Lists env showAsSkipped s
  · obtain ⟨hpass, hfile, hdonotlist, hsuspended, hactive, hbytes⟩ := id hlists
    rw [if_pos hlists, listFile, if_neg (by simp [hpass, hfile, hdonotlist, hsuspended]),
      if_neg (by simpa using hactive), if_neg (by simpa using hbytes)]
    exact listing_listRows env.listingType hs hskipped (Nat.lt_succ_self _)
  · rw [if_neg hlists, listFile]
    split_ifs with hoff hactive hbytes
    · exact hnone
    · exact hnone
    · exact hnone
    · refine absurd ⟨?_, ?_, ?_, ?_, ?_, ?_⟩ hlists <;> simp_all

end

end Sjasmplus
