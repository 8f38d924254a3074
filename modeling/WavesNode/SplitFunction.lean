/-
`split`: a string cut at every occurrence of a separator.

The loop keeps the place where the piece at hand begins, and the pieces before it in reverse.
What carries it is `Consumed`: the pieces so far, each followed by the separator, are the
string up to that place, none of them has the separator in it, and they are as many as the
occurrences that are passed. The place is within the string all along, so no piece is asked for
outside of it and no sum of indices wraps.
-/
import WavesNode.JavaString

set_option autoImplicit false

namespace WavesNode

namespace Lang

namespace PureContext

open JavaString (StringIndexOutOfBoundsException)

/-! ## 1. The function -/

/-- `splitRec`, as far as the fuel goes: what the loop returns, or what it throws. -/
def splitRec (fuel : ℕ) (str sep : JavaString) (offset : ℤ) (splitted : List JavaString) :
    Option (Except StringIndexOutOfBoundsException (List JavaString)) :=
  match fuel with
  | 0 => none
  | fuel + 1 =>
    let index := str.indexOf sep offset
    if index = -1 then
      some ((· :: splitted) <$> str.substring offset str.length)
    else
      match str.substring offset index with
      | .error e => some (.error e)
      | .ok piece => splitRec fuel str sep (toInt32 (index + sep.length)) (piece :: splitted)

def listWithEmptyStr : List JavaString := [[]]

def split (fuel : ℕ) (str sep : JavaString) :
    Option (Except StringIndexOutOfBoundsException (List JavaString)) :=
  if str = [] then some (.ok listWithEmptyStr)
  else if sep = [] then some (.ok (str.map fun c => [c]))
  else Except.map List.reverse <$> splitRec fuel str sep 0 []

/-- `splitStr`: every piece is made a constant. -/
def splitStr (fuel : ℕ) (str sep : Text) :
    Option (Except StringIndexOutOfBoundsException (Except String (List Text))) :=
  Except.map (List.mapM Text.apply) <$> split fuel str.s sep.s

/-! ## 2. The loop -/

section Loop

variable {str sep : JavaString}

/-- What is cut off when the piece at hand begins at a place. -/
structure Consumed (str sep : JavaString) (offset : ℕ) (splitted : List JavaString) : Prop where
  within : offset ≤ str.length
  joined : (splitted.reverse.map (· ++ sep)).flatten = List.take offset str
  whole : ∀ p ∈ splitted, Occurrences.firstFrom sep p 0 = none
  part : ∀ p ∈ splitted, ∃ i n, p = List.take n (List.drop i str)
  counted : splitted.length + Occurrences.count sep (List.drop offset str) =
    Occurrences.count sep str

theorem Consumed.start (str sep : JavaString) : Consumed str sep 0 [] where
  within := Nat.zero_le _
  joined := rfl
  whole := by simp
  part := by simp
  counted := Nat.zero_add _

/-- A piece that ends where the separator occurs next. -/
theorem Consumed.next (hsep : sep ≠ []) {offset index : ℕ} {splitted : List JavaString}
    (hc : Consumed str sep offset splitted)
    (hindex : Occurrences.firstFrom sep str offset = some index) :
    Consumed str sep (index + sep.length)
      ((List.drop offset str).take (index - offset) :: splitted) := by
  obtain ⟨⟨hoffset, hlen⟩, hoccurs, -⟩ := Occurrences.firstFrom_eq_some_iff.mp hindex
  refine ⟨?_, ?_, ?_, ?_, ?_⟩
  · exact Occurrences.length_le_of_prefix_drop hlen hoccurs
  · rw [Occurrences.take_add_length hoffset hoccurs, ← hc.joined]
    simp only [List.reverse_cons, List.map_append, List.map_cons, List.map_nil,
      List.flatten_append, List.flatten_cons, List.flatten_nil, List.append_nil]
  · intro p hp
    rcases List.mem_cons.mp hp with rfl | hp
    · exact Occurrences.between_eq_none hsep hindex
    · exact hc.whole p hp
  · intro p hp
    rcases List.mem_cons.mp hp with rfl | hp
    · exact ⟨offset, index - offset, rfl⟩
    · exact hc.part p hp
  · have hcount := Occurrences.count_of_firstFrom hsep hindex
    have hbefore := hc.counted
    rw [List.length_cons]
    omega

/-- What is returned: the pieces, the last one first. -/
structure Pieces (str sep : JavaString) (pieces : List JavaString) : Prop where
  joined : sep.intercalate pieces = str
  whole : ∀ p ∈ pieces, Occurrences.firstFrom sep p 0 = none
  part : ∀ p ∈ pieces, ∃ i n, p = List.take n (List.drop i str)
  counted : pieces.length = Occurrences.count sep str + 1

/-- The last piece is what is left where the separator does not occur any more. -/
theorem Consumed.last {offset : ℕ} {splitted : List JavaString}
    (hc : Consumed str sep offset splitted)
    (hindex : Occurrences.firstFrom sep str offset = none) :
    Pieces str sep (List.drop offset str :: splitted).reverse := by
  have hlast : (List.drop offset str).take (str.length - offset) = List.drop offset str := by
    rw [List.take_of_length_le (by rw [List.length_drop])]
  refine ⟨?_, ?_, ?_, ?_⟩
  · rw [List.reverse_cons, Occurrences.intercalate_concat, hc.joined]
    exact List.take_append_drop offset str
  · intro p hp
    rcases List.mem_cons.mp (List.mem_reverse.mp hp) with rfl | hp
    · exact Occurrences.rest_eq_none hc.within hindex
    · exact hc.whole p hp
  · intro p hp
    rcases List.mem_cons.mp (List.mem_reverse.mp hp) with rfl | hp
    · exact ⟨offset, str.length - offset, hlast.symm⟩
    · exact hc.part p hp
  · have hcount := Occurrences.count_of_none hc.within hindex
    have hbefore := hc.counted
    rw [List.length_reverse, List.length_cons]
    omega

/-- The loop ends: each turn passes over a separator, which has a unit at least. -/
theorem splitRec_pieces (hsep : sep ≠ []) (hlen : str.length < 2 ^ 31) {turns offset : ℕ}
    {splitted : List JavaString} (hturns : str.length < turns + offset)
    (hc : Consumed str sep offset splitted) :
    ∃ out, (∀ fuel, turns ≤ fuel → splitRec fuel str sep offset splitted = some (.ok out)) ∧
      Pieces str sep out.reverse := by
  have hwithin := hc.within
  induction turns generalizing offset splitted with
  | zero => omega
  | succ turns ih =>
    cases hindex : Occurrences.firstFrom sep str offset with
    | none =>
      refine ⟨List.drop offset str :: splitted, fun fuel hfuel => ?_, hc.last hindex⟩
      obtain ⟨fuel, rfl⟩ : ∃ n, fuel = n + 1 := ⟨fuel - 1, by omega⟩
      have hall : (List.drop offset str).take (str.length - offset) = List.drop offset str := by
        rw [List.take_of_length_le (by rw [List.length_drop])]
      simp only [splitRec, JavaString.indexOf_of_none hwithin hindex, if_true,
        JavaString.substring_eq hwithin (Nat.le_refl _), hall]
      rfl
    | some index =>
      obtain ⟨⟨hoffset, hle⟩, hoccurs, -⟩ := Occurrences.firstFrom_eq_some_iff.mp hindex
      have hend := Occurrences.length_le_of_prefix_drop hle hoccurs
      have hpos := List.length_pos_iff.mpr hsep
      have hturns' : str.length < turns + (index + sep.length) := by omega
      obtain ⟨out, hout, hpieces⟩ := ih hturns' (hc.next hsep hindex) hend
      refine ⟨out, fun fuel hfuel => ?_, hpieces⟩
      obtain ⟨fuel, rfl⟩ : ∃ n, fuel = n + 1 := ⟨fuel - 1, by omega⟩
      have hfound : (index : ℤ) ≠ -1 := by omega
      -- the end of a separator that is found is within the string, and the sum does not wrap
      have hsum : toInt32 (index + sep.length) = ((index + sep.length : ℕ) : ℤ) := by
        rw [toInt32_of_range (by omega) (by omega)]
        omega
      simp only [splitRec, JavaString.indexOf_of_some hwithin hindex, if_neg hfound,
        JavaString.substring_eq hoffset hle, hsum]
      exact hout fuel (by omega)

/-- The string is split, whatever the separator and wherever it occurs. -/
theorem split_pieces (hstr : str ≠ []) (hsep : sep ≠ []) (hlen : str.length < 2 ^ 31) :
    ∃ pieces, (∀ fuel, str.length < fuel → split fuel str sep = some (.ok pieces)) ∧
      Pieces str sep pieces := by
  obtain ⟨out, hout, hpieces⟩ := splitRec_pieces hsep hlen
    (show str.length < (str.length + 1) + 0 by omega) (Consumed.start str sep)
  refine ⟨out.reverse, fun fuel hfuel => ?_, hpieces⟩
  have hrec : splitRec fuel str sep 0 [] = some (.ok out) := hout fuel (by omega)
  rw [split, if_neg hstr, if_neg hsep, hrec]
  rfl

end Loop

/-! ## 3. Pieces as constants -/

/-- A part of a constant fits the bound of one. -/
theorem utf8Length_part_le (t : Text) {p : JavaString}
    (h : ∃ i n, p = List.take n (List.drop i t.s)) :
    JavaString.utf8Length p ≤ DATA_TX_BYTES_MAX := by
  obtain ⟨i, n, rfl⟩ := h
  have htake := JavaString.utf8Length_take_le n (List.drop i t.s)
  have hdrop := JavaString.utf8Length_drop_le i t.s
  have hsize := t.size_le
  omega

theorem mapM_apply {pieces : List JavaString}
    (h : ∀ p ∈ pieces, JavaString.utf8Length p ≤ DATA_TX_BYTES_MAX) :
    ∃ texts, pieces.mapM Text.apply = .ok texts ∧ texts.map Text.s = pieces := by
  induction pieces with
  | nil => exact ⟨[], rfl, rfl⟩
  | cons p ps ih =>
    obtain ⟨texts, htexts, hmap⟩ := ih fun q hq => h q (List.mem_cons_of_mem p hq)
    refine ⟨⟨p, h p List.mem_cons_self⟩ :: texts, ?_, ?_⟩
    · rw [List.mapM_cons, Text.apply_of_le (h p List.mem_cons_self), htexts]
      rfl
    · rw [List.map_cons, hmap]

/-- **The law of `split`.** For a string and a separator that are not empty the loop ends and
throws nothing, the pieces joined with the separator are the string, the separator is found in
none of them, and there is one more of them than it is met in the string. -/
theorem splitStr_law (str sep : Text) (hstr : str.s ≠ []) (hsep : sep.s ≠ []) :
    ∃ pieces : List Text,
      (∀ fuel, str.s.length < fuel → splitStr fuel str sep = some (.ok (.ok pieces))) ∧
      sep.s.intercalate (pieces.map Text.s) = str.s ∧
      (∀ p ∈ pieces, p.s.indexOf sep.s 0 = -1) ∧
      pieces.length = Occurrences.count sep.s str.s + 1 := by
  have hlen : str.s.length < 2 ^ 31 := by
    have hle := str.length_le
    omega
  obtain ⟨pieces, hsplit, hpieces⟩ := split_pieces hstr hsep hlen
  obtain ⟨texts, htexts, hmap⟩ := mapM_apply fun p hp => utf8Length_part_le str (hpieces.part p hp)
  refine ⟨texts, fun fuel hfuel => ?_, ?_, fun p hp => ?_, ?_⟩
  · rw [splitStr, hsplit fuel hfuel, ← htexts]
    rfl
  · rw [hmap]
    exact hpieces.joined
  · have hnone := hpieces.whole p.s (hmap ▸ List.mem_map_of_mem hp)
    exact JavaString.indexOf_of_none (Nat.zero_le _) hnone
  · rw [← hpieces.counted, ← hmap, List.length_map]

/-- A separator that overlaps itself, at the front, inside and at the end. -/
theorem splitStr_law_overlapping :
    ∃ str sep : Text, str.s = [97, 97, 97, 98, 97, 97] ∧ sep.s = [97, 97] ∧
      ∃ pieces : List Text,
        (∀ fuel, str.s.length < fuel → splitStr fuel str sep = some (.ok (.ok pieces))) ∧
        sep.s.intercalate (pieces.map Text.s) = str.s ∧
        (∀ p ∈ pieces, p.s.indexOf sep.s 0 = -1) ∧
        pieces.length = Occurrences.count sep.s str.s + 1 :=
  ⟨⟨[97, 97, 97, 98, 97, 97], by decide⟩, ⟨[97, 97], by decide⟩, rfl, rfl,
    splitStr_law _ _ (List.cons_ne_nil _ _) (List.cons_ne_nil _ _)⟩

end PureContext

end Lang

end WavesNode
