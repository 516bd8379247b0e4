import Restpose.Core.Loops
import Restpose.Core.OrderedCodes
import Restpose.Core.Results
import Restpose.Search.Lengths

/-!
# Sort keys

The keys that documents are sorted by.  For each slot to sort by, the key has the
first value of the slot, written such that the keys compare as the values do, or
in the opposite order.  The loop for values in forward order does not get past a
zero byte.
-/

namespace Restpose.Search

open Indexing List Loops Prod

/-! ## Decoders -/

structure SlotDecoder where
  slot : ℕ
  encoding : ValueEncoding

/-- The first call of `next` after `newdoc`: the first value of the slot, if
there is one. -/
def SlotDecoder.first (decoder : SlotDecoder) (document : Xapian.Document) :
    Except SourceError (Option Bytes) :=
  let value := document.getValue decoder.slot
  match decoder.encoding with
  | .singlyValued => .ok (some value)
  | .vintLengths =>
      if value = [] then .ok none
      else (decodeLength value true).map fun (length, rest) =>
        some (rest.take length)
  | .geoencode =>
      if value = [] then .ok none
      else if value.length < 6 then .error (.unserialisation
        (ascii "Bad geoencoded value: invalid encoded length"))
      else .ok (some (value.take 6))

/-! ## The key maker -/

/-- What the loop for reverse order appends for a byte. -/
def reverseByte (byte : Byte) : Bytes :=
  if byte = 0 then [255 - byte, 0] else [255 - byte]

/-- The variables of the loop for forward order: the bytes from `begin` on, and
whether the loop was left. -/
structure ForwardLoop where
  rest : Bytes
  length : ℕ
  result : Bytes
  stopped : Bool

namespace ForwardLoop

def guard (state : ForwardLoop) : Bool :=
  decide (0 < state.length) && !state.stopped

def body (state : ForwardLoop) : ForwardLoop :=
  match (state.rest.take state.length).idxOf? 0 with
  | none =>
      { state with
        result := state.result ++ state.rest.take state.length
        stopped := true }
  | some offset =>
      -- The length is reduced by the distance to `begin` after `begin` was
      -- moved, which is zero.
      { state with
        rest := state.rest.drop offset
        result := state.result ++ state.rest.take offset ++ [0] }

end ForwardLoop

/-- `MultiValueKeyMaker::operator()`, from a decoder on.  There is no result if
a loop has not ended after `fuel` passes. -/
def makeKey (fuel : ℕ) (document : Xapian.Document) :
    List (SlotDecoder × Bool) → Bytes →
      Option (Except SourceError Bytes)
  | [], result => some (.ok result)
  | (decoder, reverse) :: decoders, result =>
      match decoder.first document with
      | .error error => some (.error error)
      | .ok none => makeKey fuel document decoders (result ++ [1])
      | .ok (some value) =>
          if reverse then
            makeKey fuel document decoders
              (result ++ [0] ++ value.flatMap reverseByte ++ [255, 255])
          else
            match Loops.tryWhile ForwardLoop.guard ForwardLoop.body fuel
              ⟨value, value.length, result ++ [0], false⟩ with
            | none => none
            | some state =>
                makeKey fuel document decoders (state.result ++ [0, 0])

/-! ## The loop for forward order -/

variable {value : Bytes}

/-- Without a zero byte the loop ends in its first pass. -/
theorem tryWhile_forward (hzero : (0 : Byte) ∉ value) (fuel : ℕ) (result : Bytes) :
    ∃ state, tryWhile ForwardLoop.guard ForwardLoop.body (fuel + 1)
        ⟨value, value.length, result, false⟩ = some state ∧
      state.result = result ++ value := by
  cases hvalue : value with
  | nil =>
    exact ⟨_, tryWhile_of_not_guard _ rfl _, (append_nil _).symm⟩
  | cons byte bytes =>
    rw [← hvalue]
    have hguard : ForwardLoop.guard ⟨value, value.length, result, false⟩ = true := by
      rw [hvalue]
      rfl
    have hbody : ForwardLoop.body ⟨value, value.length, result, false⟩ =
        ⟨value, value.length, result ++ value, true⟩ := by
      have hnone : value.idxOf? 0 = none := idxOf?_eq_none_iff.mpr hzero
      simp only [ForwardLoop.body, take_length, hnone]
    refine ⟨⟨value, value.length, result ++ value, true⟩, ?_, rfl⟩
    rw [tryWhile, if_pos hguard, hbody]
    exact tryWhile_of_not_guard _ (by simp [ForwardLoop.guard]) _

/-- With a zero byte the loop stays at it. -/
theorem tryWhile_forward_eq_none (hzero : (0 : Byte) ∈ value) (fuel : ℕ)
    (result : Bytes) :
    tryWhile ForwardLoop.guard ForwardLoop.body fuel
      ⟨value, value.length, result, false⟩ = none := by
  refine tryWhile_eq_none (fun state => 0 < state.length ∧
    state.stopped = false ∧ (0 : Byte) ∈ state.rest.take state.length) ?_ fuel
    ⟨length_pos_of_mem hzero, rfl, by rwa [take_length]⟩
  rintro ⟨rest, length, result, stopped⟩ ⟨hlength, hstopped, hmem⟩
  dsimp only at hlength hstopped hmem
  subst hstopped
  refine ⟨by simp [ForwardLoop.guard, hlength], ?_⟩
  obtain ⟨offset, hoffset⟩ : ∃ offset, (rest.take length).idxOf? 0 = some offset := by
    rw [← Option.isSome_iff_exists, Option.isSome_iff_ne_none]
    exact fun hnone => idxOf?_eq_none_iff.mp hnone hmem
  have hhead : ∃ bytes, rest.drop offset = 0 :: bytes := by
    obtain ⟨hbound, hbyte, -⟩ := findIdx?_eq_some_iff_getElem.mp hoffset
    have hlt : offset < rest.length := by
      rw [length_take] at hbound
      omega
    have hfound : rest[offset] = 0 := by simpa using hbyte
    exact ⟨rest.drop (offset + 1), by
      rw [drop_eq_getElem_cons hlt, hfound]⟩
  obtain ⟨bytes, hbytes⟩ := hhead
  simp only [ForwardLoop.body, hoffset, hbytes]
  refine ⟨hlength, trivial, ?_⟩
  obtain ⟨length, rfl⟩ := Nat.exists_eq_succ_of_ne_zero hlength.ne'
  exact mem_cons_self

/-! ## The whole key -/

/-- What the key has for the first value of a slot, if there is no zero byte
in the way. -/
def encodeFirst (reverse : Bool) : Option Bytes → Bytes
  | none => [1]
  | some value =>
      if reverse then 0 :: (value.flatMap reverseByte ++ [255, 255])
      else 0 :: (value ++ [0, 0])

/-- A value in forward order has no zero byte. -/
def ZeroFree (reverse : Bool) (first : Option Bytes) : Prop :=
  reverse = false → ∀ value, first = some value → (0 : Byte) ∉ value

/-- The first values that the decoders find in a document. -/
def firstValues (decoders : List (SlotDecoder × Bool))
    (document : Xapian.Document) :
    Except SourceError (List (Option Bytes)) :=
  decoders.mapM fun decoder => decoder.1.first document

variable (fuel : ℕ) {document : Xapian.Document}

theorem makeKey_cons {decoder : SlotDecoder} {reverse : Bool} {first : Option Bytes}
    (hfirst : decoder.first document = .ok first) (hzero : ZeroFree reverse first)
    (decoders : List (SlotDecoder × Bool)) (result : Bytes) :
    makeKey (fuel + 1) document ((decoder, reverse) :: decoders) result =
      makeKey (fuel + 1) document decoders (result ++ encodeFirst reverse first) := by
  rw [makeKey, hfirst]
  cases first with
  | none => rfl
  | some value =>
    cases reverse with
    | true => simp [encodeFirst]
    | false =>
      obtain ⟨state, hloop, hresult⟩ :=
        tryWhile_forward (hzero rfl value rfl) fuel (result ++ [0])
      simp [hloop, hresult, encodeFirst]

variable {decoders : List (SlotDecoder × Bool)}
  {values : List (Option Bytes)}

theorem firstValues_cons {decoder : SlotDecoder × Bool}
    (hvalues : firstValues (decoder :: decoders) document = .ok values) :
    ∃ first rest, values = first :: rest ∧ decoder.1.first document = .ok first ∧
      firstValues decoders document = .ok rest := by
  unfold firstValues at hvalues
  rw [mapM_cons] at hvalues
  cases hfirst : decoder.1.first document with
  | error error =>
    rw [hfirst] at hvalues
    cases hvalues
  | ok first =>
    cases hrest : firstValues decoders document with
    | error error =>
      unfold firstValues at hrest
      rw [hfirst, hrest] at hvalues
      cases hvalues
    | ok rest =>
      unfold firstValues at hrest
      rw [hfirst, hrest] at hvalues
      cases hvalues
      exact ⟨first, rest, rfl, rfl, rfl⟩

/-- Without zero bytes in forward order, the key is made. -/
theorem makeKey_eq (hvalues : firstValues decoders document = .ok values)
    (hzero : ValidAll ZeroFree (decoders.map snd) values) (result : Bytes) :
    makeKey (fuel + 1) document decoders result = some (.ok (result ++
        encodeAll encodeFirst (decoders.map snd) values)) := by
  induction decoders generalizing values result with
  | nil =>
    cases hvalues
    simp [makeKey, encodeAll]
  | cons decoder decoders ih =>
    obtain ⟨first, rest, rfl, hfirst, hrest⟩ := firstValues_cons hvalues
    cases hzero with
    | cons hfree hzero =>
      rw [makeKey_cons fuel hfirst hfree, ih hrest hzero, map_cons, encodeAll,
        append_assoc]

/-- With a zero byte in forward order, the key is never made. -/
theorem makeKey_eq_none (hvalues : firstValues decoders document = .ok values)
    (hzero : ¬ValidAll ZeroFree (decoders.map snd) values) (result : Bytes) :
    makeKey fuel document decoders result = none := by
  induction decoders generalizing values result with
  | nil =>
    cases hvalues
    exact absurd List.Forall₂.nil hzero
  | cons decoder decoders ih =>
    obtain ⟨decoder, reverse⟩ := decoder
    obtain ⟨first, rest, rfl, hfirst, hrest⟩ := firstValues_cons hvalues
    dsimp only at hfirst
    rw [makeKey, hfirst]
    by_cases hfree : ZeroFree reverse first
    · have hlater : ¬ValidAll ZeroFree (decoders.map snd) rest :=
        fun hvalid => hzero (List.Forall₂.cons hfree hvalid)
      have hnone := ih hrest hlater
      cases first with
      | none => exact hnone _
      | some value =>
        simp only [hnone]
        cases reverse with
        | true => rfl
        | false =>
          simp only [Bool.false_eq_true, if_false]
          split <;> rfl
    · simp only [ZeroFree, Classical.not_imp, not_forall, not_not] at hfree
      obtain ⟨rfl, value, rfl, hmem⟩ := hfree
      simp [tryWhile_forward_eq_none hmem]

/-! ## When keys are made -/

/-- Twice the length of each first value and three bytes more. -/
def keyBound (values : List (Option Bytes)) : ℕ :=
  (values.map fun first => 2 * (first.getD []).length + 3).sum

theorem length_reverse (value : Bytes) :
    (value.flatMap reverseByte).length ≤ 2 * value.length := by
  induction value with
  | nil => simp
  | cons byte value ih =>
    have hbyte : (reverseByte byte).length ≤ 2 := by
      unfold reverseByte
      split_ifs <;> simp
    simp only [flatMap_cons, length_append, length_cons]
    omega

theorem length_encodeFirst (reverse : Bool) (first : Option Bytes) :
    (encodeFirst reverse first).length ≤ 2 * (first.getD []).length + 3 := by
  cases first with
  | none => simp [encodeFirst]
  | some value =>
    have hreverse := length_reverse value
    cases reverse with
    | true => simp [encodeFirst] at hreverse ⊢; omega
    | false => simp [encodeFirst]; omega

theorem length_encodeAll (kinds : List Bool) (values : List (Option Bytes)) :
    (encodeAll encodeFirst kinds values).length ≤ keyBound values := by
  induction values generalizing kinds with
  | nil => cases kinds <;> simp [encodeAll]
  | cons first values ih =>
    cases kinds with
    | nil => simp [encodeAll]
    | cons reverse kinds =>
      have hfirst := length_encodeFirst reverse first
      have hrest := ih kinds
      simp only [encodeAll, length_append, keyBound, map_cons, sum_cons] at hrest ⊢
      omega

/-- A key within its bound is made if and only if no first value in forward
order has a zero byte. -/
theorem makeKey_ends_iff (decoders : List (SlotDecoder × Bool))
    (document : Xapian.Document) (values : List (Option Bytes))
    (hvalues : firstValues decoders document = .ok values) :
    (∃ fuel key, makeKey fuel document decoders [] = some (.ok key) ∧
        key.length ≤ keyBound values) ↔
      ValidAll ZeroFree (decoders.map Prod.snd) values := by
  constructor
  · rintro ⟨fuel, key, hkey, -⟩
    by_contra hzero
    rw [makeKey_eq_none fuel hvalues hzero] at hkey
    cases hkey
  · intro hzero
    exact ⟨1, _, makeKey_eq 0 hvalues hzero [], length_encodeAll _ values⟩

/-- A decoder for a slot with one value, in forward order, and one in reverse
order. -/
def twoDecoders : List (SlotDecoder × Bool) :=
  [(⟨0, .singlyValued⟩, false), (⟨1, .vintLengths⟩, true)]

/-- A document with values in these slots. -/
def slotDocument (first second : Bytes) : Xapian.Document :=
  ⟨∅, ((∅ : Std.ExtTreeMap ℕ Bytes).insert 0 first).insert 1 second, []⟩

theorem makeKey_ends_word : ∃ fuel key,
    makeKey fuel (slotDocument (ascii "ab") [2, 0, 7]) twoDecoders [] =
        some (.ok key) ∧
      key.length ≤ 14 := by
  have hvalues : firstValues twoDecoders (slotDocument (ascii "ab") [2, 0, 7]) =
      .ok [some (ascii "ab"), some [0, 7]] := by decide +kernel
  refine (makeKey_ends_iff twoDecoders _ _ hvalues).mpr ?_
  refine .cons (fun _ value hvalue => ?_) (.cons nofun .nil)
  cases hvalue
  decide

/-- The first value is a zero byte. -/
theorem makeKey_zero_hangs :
    firstValues [(⟨0, .singlyValued⟩, false)] (slotDocument [0] []) =
        .ok [some [0]] ∧
      ∀ fuel, makeKey fuel (slotDocument [0] []) [(⟨0, .singlyValued⟩, false)]
        [] = none := by
  have hvalues : firstValues [(⟨0, .singlyValued⟩, false)]
      (slotDocument [0] []) = .ok [some [0]] := by decide +kernel
  refine ⟨hvalues, fun fuel => makeKey_eq_none fuel hvalues ?_ []⟩
  intro hvalid
  cases hvalid with
  | cons hfree _ => exact hfree rfl [0] rfl (by decide)

/-! ## How keys compare -/

variable {byte : Byte}

theorem compare_zero (hbyte : byte ≠ 0) : compare (0 : Byte) byte = .lt :=
  compare_lt_iff_lt.mpr (Fin.pos_iff_ne_zero.mpr hbyte)

theorem val_complement (byte : Byte) : (255 - byte).val = 255 - byte.val := by
  have hbyte := byte.isLt
  rw [Fin.sub_def]
  dsimp only
  omega

/-- Subtracting bytes from 255 turns their order around. -/
theorem compare_complement (left right : Byte) :
    compare (255 - left) (255 - right) = compare right left := by
  have hleft := val_complement left
  have hright := val_complement right
  have hlimit := left.isLt
  have hlimit' := right.isLt
  rcases lt_trichotomy right left with hlt | heq | hgt
  · rw [compare_lt_iff_lt.mpr hlt, compare_lt_iff_lt, Fin.lt_def]
    have := Fin.lt_def.mp hlt
    omega
  · subst heq
    rw [Std.ReflOrd.compare_self, Std.ReflOrd.compare_self]
  · rw [compare_gt_iff_gt.mpr hgt, compare_gt_iff_gt, Fin.lt_def]
    have := Fin.lt_def.mp hgt
    omega

theorem not_mem_of_cons (hzero : (0 : Byte) ∉ byte :: value) :
    byte ≠ 0 ∧ (0 : Byte) ∉ value := by
  rw [mem_cons, not_or] at hzero
  exact ⟨Ne.symm hzero.1, hzero.2⟩

/-- Texts without zero bytes, with two zero bytes after them. -/
theorem orderedCode_forward :
    OrderedCode (fun value : Bytes => (0 : Byte) ∉ value) compare
      fun value => value ++ [0, 0] := by
  intro left
  induction left with
  | nil =>
    intro right _ hright first second
    cases right with
    | nil => rfl
    | cons byte right =>
      have hbyte := (not_mem_of_cons hright).1
      change compare (0 :: 0 :: first) (byte :: (right ++ [0, 0] ++ second)) = _
      rw [compare_cons, compare_zero hbyte]
      rfl
  | cons byte left ih =>
    intro right hleft hright first second
    obtain ⟨hbyte, hrest⟩ := not_mem_of_cons hleft
    cases right with
    | nil =>
      change compare (byte :: (left ++ [0, 0] ++ first)) (0 :: 0 :: second) = _
      rw [compare_cons, Std.OrientedCmp.gt_iff_lt.mpr (compare_zero hbyte)]
      rfl
    | cons other right =>
      have htail := ih right hrest (not_mem_of_cons hright).2 first second
      change compare (byte :: (left ++ [0, 0] ++ first))
        (other :: (right ++ [0, 0] ++ second)) = _
      rw [compare_cons, compare_cons, htail, Ordering.then_assoc]

theorem compare_last (hbyte : byte ≠ 0) : compare (255 : Byte) (255 - byte) = .gt := by
  have hcomplement := compare_complement 0 byte
  rw [Std.OrientedCmp.gt_iff_lt.mpr (compare_zero hbyte)] at hcomplement
  exact hcomplement

theorem reverseByte_of_ne (hbyte : byte ≠ 0) :
    reverseByte byte = [255 - byte] := if_neg hbyte

/-- A byte subtracted from 255, where zero gets another byte. -/
theorem orderedCode_reverseByte :
    OrderedCode (fun _ : Byte => True) (fun left right => compare right left)
      reverseByte := by
  intro left right _ _ first second
  beta_reduce
  by_cases hleft : left = 0
  · by_cases hright : right = 0
    · rw [hleft, hright]
      rfl
    · rw [hleft, reverseByte_of_ne hright]
      change compare (255 :: 0 :: first) ((255 - right) :: second) = _
      rw [compare_cons, compare_last hright,
        Std.OrientedCmp.gt_iff_lt.mpr (compare_zero hright)]
      rfl
  · by_cases hright : right = 0
    · rw [hright, reverseByte_of_ne hleft]
      change compare ((255 - left) :: first) (255 :: 0 :: second) = _
      rw [compare_cons, Std.OrientedCmp.gt_iff_lt.mp (compare_last hleft),
        compare_zero hleft]
      rfl
    · rw [reverseByte_of_ne hleft, reverseByte_of_ne hright]
      change compare ((255 - left) :: first) ((255 - right) :: second) = _
      rw [compare_cons, compare_complement]

/-- The end of a text comes after all that could follow. -/
theorem compare_end_reverseByte (byte : Byte) (first second : Bytes) :
    compare (255 :: 255 :: first) (reverseByte byte ++ second) = .gt := by
  by_cases hbyte : byte = 0
  · rw [hbyte]
    rfl
  · rw [reverseByte_of_ne hbyte]
    change compare (255 :: 255 :: first) ((255 - byte) :: second) = _
    rw [compare_cons, compare_last hbyte]
    rfl

/-- The bytes of a text subtracted from 255, and two more bytes. -/
theorem orderedCode_reverse : OrderedCode (fun _ : Bytes => True)
      (fun left right => compare right left)
      fun value => value.flatMap reverseByte ++ [255, 255] := by
  intro left
  induction left with
  | nil =>
    intro right _ _ first second
    cases right with
    | nil => rfl
    | cons byte right =>
      simp only [flatMap_cons, append_assoc]
      exact compare_end_reverseByte byte first _
  | cons byte left ih =>
    intro right _ _ first second
    cases right with
    | nil =>
      simp only [flatMap_cons, append_assoc]
      exact Std.OrientedCmp.gt_iff_lt.mp (compare_end_reverseByte byte second _)
    | cons other right =>
      have htail := ih right trivial trivial first second
      simp only [flatMap_cons, append_assoc] at htail ⊢
      rw [orderedCode_reverseByte byte other trivial trivial, htail,
        compare_cons, Ordering.then_assoc]

/-- The comparison of first values: a document without one comes last. -/
def compareFirst (reverse : Bool) : Option Bytes → Option Bytes →
    Ordering
  | none, none => .eq
  | none, some _ => .gt
  | some _, none => .lt
  | some left, some right =>
      if reverse then compare right left else compare left right

theorem orderedCode_encodeFirst (reverse : Bool) :
    OrderedCode (ZeroFree reverse) (compareFirst reverse) (encodeFirst reverse) := by
  intro left right hleft hright first second
  cases left with
  | none =>
    cases right with
    | none => rfl
    | some right => cases reverse <;> rfl
  | some left =>
    cases right with
    | none => cases reverse <;> rfl
    | some right =>
      cases reverse with
      | true =>
        exact orderedCode_reverse.cons 0 left right trivial trivial first
          second
      | false =>
        exact orderedCode_forward.cons 0 left right (hleft rfl left rfl)
          (hright rfl right rfl) first second

/-- Without zero bytes in forward order, the keys of two documents compare as
their first values do, slot by slot. -/
theorem compare_keys (decoders : List (SlotDecoder × Bool))
    (left right : Xapian.Document)
    (leftValues rightValues : List (Option Bytes))
    (hleft : firstValues decoders left = .ok leftValues)
    (hright : firstValues decoders right = .ok rightValues)
    (hleftZero : ValidAll ZeroFree (decoders.map Prod.snd) leftValues)
    (hrightZero : ValidAll ZeroFree (decoders.map Prod.snd) rightValues) :
    ∃ leftKey rightKey,
      (∃ fuel, makeKey fuel left decoders [] = some (.ok leftKey)) ∧
      (∃ fuel, makeKey fuel right decoders [] = some (.ok rightKey)) ∧
      compare leftKey rightKey =
        compareAll compareFirst (decoders.map Prod.snd) leftValues
          rightValues := by
  refine ⟨_, _, ⟨1, makeKey_eq 0 hleft hleftZero []⟩,
    ⟨1, makeKey_eq 0 hright hrightZero []⟩, ?_⟩
  exact compare_encodeAll orderedCode_encodeFirst hleftZero hrightZero

theorem compare_keys_words :
    ∃ leftKey rightKey,
      (∃ fuel, makeKey fuel (slotDocument (ascii "a") [1, 0]) twoDecoders [] =
        some (.ok leftKey)) ∧
      (∃ fuel, makeKey fuel (slotDocument (ascii "a") [1, 7]) twoDecoders [] =
        some (.ok rightKey)) ∧
      compare leftKey rightKey = .gt := by
  have hfree : ∀ second : Option Bytes,
      ValidAll ZeroFree (twoDecoders.map Prod.snd) [some (ascii "a"), second] := by
    intro second
    refine .cons (fun _ value hvalue => ?_) (.cons nofun .nil)
    cases hvalue
    decide
  exact compare_keys twoDecoders (slotDocument (ascii "a") [1, 0])
    (slotDocument (ascii "a") [1, 7]) [some (ascii "a"), some [0]]
    [some (ascii "a"), some [7]] (by decide +kernel) (by decide +kernel)
    (hfree _) (hfree _)

end Restpose.Search
