import HeapHttpd.Http1.UrlFormat
import HeapHttpd.Library.Pieces
import HeapHttpd.Library.Trimming

/-!
# Query variables

`NIU_POST_GET_VARS`, which carries a key, a value and a decoded value from piece to
piece, against a parse of each piece on its own.
-/

namespace HeapHttpd

namespace Http1

open General

/-! ## The loop -/

/-- `NIU_URLFORMAT_DECODE` of a string, where `behind` tells what memory holds behind the
NUL of a text. -/
def niuUrlFormatDecode (behind : List UInt8 → List UInt8) (src : List UInt8) : List UInt8 :=
  decodeIn (0 :: behind src) src

/-- The variables of `NIU_POST_GET_VARS`, where `isValue` is whether `where` is `V`. -/
structure PostVars where
  isValue : Bool
  key : List UInt8
  value : List UInt8
  value2 : List UInt8
  varmap : StringMap
  deriving DecidableEq

/-- What is done at a `&` and at the end. -/
def PostVars.store (behind : List UInt8 → List UInt8) (vars : PostVars) : PostVars :=
  let key := apiStrtrim vars.key
  if key ≠ [] then
    let value2 := if vars.value ≠ [] then niuUrlFormatDecode behind vars.value else vars.value2
    { isValue := false, key := [], value := [], value2, varmap := vars.varmap.set key value2 }
  else { vars with key, isValue := false }

/-- What is done at another octet. -/
def PostVars.take (vars : PostVars) (ch : UInt8) : PostVars :=
  if ch = 0x3d then { vars with isValue := true }
  else if vars.isValue then { vars with value := vars.value ++ [ch] }
  else { vars with key := vars.key ++ [ch] }

/-- `NIU_POST_GET_VARS`. -/
def niuPostGetVars (behind : List UInt8 → List UInt8) (data : List UInt8) : StringMap :=
  (Pieces.readPieces 0x26 PostVars.take (PostVars.store behind) ⟨false, [], [], [], []⟩
    (cString data)).varmap

/-! ## The reference -/

/-- What stands in front of the first `=`. -/
def keyText (piece : List UInt8) : List UInt8 :=
  piece.takeWhile (· ≠ 0x3d)

/-- What stands behind it. -/
def valueText (piece : List UInt8) : List UInt8 :=
  (piece.dropWhile (· ≠ 0x3d)).tail

/-- The key of a piece. -/
def pieceKey (piece : List UInt8) : List UInt8 :=
  trimmed (keyText piece)

/-- The pieces of a text. -/
def queryPieces (data : List UInt8) : List (List UInt8) :=
  (cString data).splitOn 0x26

/-- A piece that is parsed on its own. -/
def referencePiece (behind : List UInt8 → List UInt8) (varmap : StringMap) (piece : List UInt8) :
    StringMap :=
  if pieceKey piece = [] then varmap
  else varmap.set (pieceKey piece) (niuUrlFormatDecode behind (valueText piece))

/-- The parse that the loop is compared with. -/
def referenceVars (behind : List UInt8 → List UInt8) (data : List UInt8) : StringMap :=
  (queryPieces data).foldl (referencePiece behind) []

/-- Maps with the same value, or none, under each key. -/
def SameVars (first second : StringMap) : Prop :=
  ∀ key, OrderedMap.find key first = OrderedMap.find key second

/-! ## One piece in the loop -/

/-- What is collected of a value: the text without any `=`. -/
def collectedText (piece : List UInt8) : List UInt8 :=
  (piece.dropWhile (· ≠ 0x3d)).filter (· ≠ 0x3d)

section Piece

variable {behind : List UInt8 → List UInt8}

theorem foldl_take_value (key value value2 : List UInt8) (varmap : StringMap)
    (text : List UInt8) :
    text.foldl PostVars.take ⟨true, key, value, value2, varmap⟩ =
      ⟨true, key, value ++ text.filter (· ≠ 0x3d), value2, varmap⟩ := by
  induction text generalizing value with
  | nil => simp
  | cons ch text ih =>
      rw [List.foldl_cons]
      by_cases isEqual : ch = 0x3d
      · rw [PostVars.take, if_pos isEqual, ih, List.filter_cons_of_neg (by simpa using isEqual)]
      · rw [PostVars.take, if_neg isEqual, if_pos rfl, ih,
          List.filter_cons_of_pos (by simpa using isEqual), List.append_assoc,
          List.singleton_append]

/-- The loop over a piece. -/
theorem foldl_take (key value value2 : List UInt8) (varmap : StringMap) (piece : List UInt8) :
    piece.foldl PostVars.take ⟨false, key, value, value2, varmap⟩ =
      ⟨decide (0x3d ∈ piece), key ++ keyText piece, value ++ collectedText piece, value2,
        varmap⟩ := by
  induction piece generalizing key with
  | nil => simp [keyText, collectedText]
  | cons ch piece ih =>
      rw [List.foldl_cons]
      by_cases isEqual : ch = 0x3d
      · subst isEqual
        rw [PostVars.take, if_pos rfl, foldl_take_value]
        simp [keyText, collectedText]
      · rw [PostVars.take, if_neg isEqual, if_neg (by simp), ih]
        simp [keyText, collectedText, isEqual, Ne.symm isEqual]

/-- A piece with its separator, behind pieces that left a value and a decoded one. -/
def storePiece (behind : List UInt8 → List UInt8) (carried : List UInt8 × List UInt8 × StringMap)
    (piece : List UInt8) : List UInt8 × List UInt8 × StringMap :=
  let value := carried.1 ++ collectedText piece
  if apiStrtrim (keyText piece) = [] then (value, carried.2)
  else
    let value2 := if value ≠ [] then niuUrlFormatDecode behind value else carried.2.1
    ([], value2, carried.2.2.set (apiStrtrim (keyText piece)) value2)

/-- The loop over pieces. -/
theorem niuPostGetVars_eq (data : List UInt8) :
    niuPostGetVars behind data =
      ((queryPieces data).foldl (storePiece behind) ([], [], [])).2.2 := by
  have pieces (value value2 : List UInt8) (varmap : StringMap) (pieces : List (List UInt8)) :
      (pieces.foldl (fun (vars : PostVars) piece => (piece.foldl PostVars.take vars).store behind)
        ⟨false, [], value, value2, varmap⟩).varmap =
        (pieces.foldl (storePiece behind) (value, value2, varmap)).2.2 := by
    induction pieces generalizing value value2 varmap with
    | nil => rfl
    | cons piece pieces ih =>
        rw [List.foldl_cons, List.foldl_cons, foldl_take, PostVars.store, storePiece]
        dsimp only
        rw [List.nil_append]
        by_cases unnamed : apiStrtrim (keyText piece) = []
        · rw [if_neg (not_not.mpr unnamed), if_pos unnamed, unnamed]
          exact ih _ _ _
        · rw [if_pos unnamed, if_neg unnamed]
          exact ih _ _ _
  rw [niuPostGetVars, Pieces.readPieces_eq_foldl]
  exact pieces [] [] [] (queryPieces data)

end Piece

/-! ## Trimming -/

section Trimming

variable {ch : UInt8}

theorem trimmed_dropWhile (isBlank' : isBlank ch = true) (text : List UInt8) :
    trimmed (text.dropWhile (· = ch)) = trimmed text := by
  induction text with
  | nil => rfl
  | cons other text ih =>
      by_cases same : other = ch
      · rw [List.dropWhile_cons_of_pos (by simpa using same), ih, trimmed, trimmed,
          List.dropWhile_cons_of_pos (by rw [same, isBlank'])]
      · rw [List.dropWhile_cons_of_neg (by simpa using same)]

theorem trimmed_dropEnd (isBlank' : isBlank ch = true) (text : List UInt8) :
    trimmed (dropEnd ch text) = trimmed text := by
  have dropped : trimmed (text.rdropWhile (· = ch)) = trimmed text := by
    induction text using List.reverseRecOn with
    | nil => rfl
    | append_singleton text last ih =>
        by_cases same : last = ch
        · rw [List.rdropWhile_concat_pos _ _ _ (by simpa using same), ih, same,
            trimmed_append_blank isBlank']
        · rw [List.rdropWhile_concat_neg _ _ _ (by simpa using same)]
  rw [dropEnd]
  split
  · rfl
  · exact dropped

theorem trimmed_trimStart (passes : Nat) (src : List UInt8) :
    trimmed (trimStart passes src) = trimmed src := by
  induction passes generalizing src with
  | zero => rfl
  | succ passes ih =>
      rw [trimStart]
      split
      · rw [ih, trimmed_dropWhile rfl, trimmed_dropWhile rfl, trimmed_dropWhile rfl,
          trimmed_dropWhile rfl]
      · rw [trimmed_dropWhile rfl, trimmed_dropWhile rfl, trimmed_dropWhile rfl,
          trimmed_dropWhile rfl]

theorem trimmed_trimEnd (passes : Nat) (src : List UInt8) :
    trimmed (trimEnd passes src) = trimmed src := by
  induction passes generalizing src with
  | zero => rfl
  | succ passes ih =>
      rw [trimEnd]
      split
      · rfl
      · rw [ih, trimmed_dropEnd rfl, trimmed_dropEnd rfl, trimmed_dropEnd rfl, trimmed_dropEnd rfl]

/-- `_strtrim_` takes away blanks at the ends only. -/
theorem trimmed_apiStrtrim (src : List UInt8) : trimmed (apiStrtrim src) = trimmed src := by
  rw [apiStrtrim, trimmed_trimEnd, trimmed_trimStart]

/-- What it leaves is trimmed where it is the trimmed text. -/
theorem apiStrtrim_eq_of_trimmed {src other : List UInt8} (same : apiStrtrim src = trimmed other) :
    apiStrtrim src = trimmed src := by
  have back := trimmed_apiStrtrim src
  rw [same, trimmed_trimmed] at back
  rw [same, back]

theorem trimStart_eq (passes : Nat) (src : List UInt8) :
    trimStart passes src = Trimming.stripStart 0x20 [0x09, 0x0d, 0x0a] passes src := by
  induction passes generalizing src with
  | zero => rfl
  | succ passes ih =>
      rw [trimStart, Trimming.stripStart]
      simp only [ih]
      rfl

theorem trimEnd_eq (passes : Nat) (src : List UInt8) :
    trimEnd passes src = Trimming.stripEnd [0x20, 0x09, 0x0d, 0x0a] passes src := by
  induction passes generalizing src with
  | zero => rfl
  | succ passes ih =>
      rw [trimEnd, Trimming.stripEnd]
      simp only [ih]
      rfl

/-- `_strtrim_` is one of the loops that trim in rounds. -/
theorem apiStrtrim_eq (src : List UInt8) :
    apiStrtrim src = Trimming.strtrim 0x20 [0x09, 0x0d, 0x0a] src := by
  rw [apiStrtrim, Trimming.strtrim, trimStart_eq, trimEnd_eq]

/-- Which texts `_strtrim_` trims. -/
theorem apiStrtrim_eq_trimmed_iff (src : List UInt8) :
    apiStrtrim src = trimmed src ↔
      Trimming.Peelable 0x20 [0x09, 0x0d, 0x0a] (src.takeWhile isBlank) := by
  have kinds : isBlank = fun ch => decide (ch ∈ [0x20, 0x09, 0x0d, 0x0a]) := by
    funext ch
    rw [Bool.eq_iff_iff]
    simp only [isBlank, Bool.or_eq_true, decide_eq_true_eq, List.mem_cons, List.not_mem_nil,
      or_false]
    tauto
  rw [apiStrtrim_eq, trimmed, kinds]
  exact Trimming.strtrim_eq_iff (by decide) src

end Trimming

/-! ## All pieces -/

/-- The values of the last pieces with their keys.  The text of a value that is decoded
begins with the ones of the pieces without a key before it, and an empty one stands for
the text that was decoded last. -/
def ValuesFollow (behind : List UInt8 → List UInt8) (kept last : List UInt8) :
    List (List UInt8) → Prop
  | [] => True
  | piece :: pieces =>
      let text := kept ++ collectedText piece
      if pieceKey piece = [] then ValuesFollow behind text last pieces
      else
        let used := if text ≠ [] then text else last
        (pieceKey piece ∉ pieces.map pieceKey →
          niuUrlFormatDecode behind used = niuUrlFormatDecode behind (valueText piece)) ∧
        ValuesFollow behind [] used pieces

section Pieces

variable {behind : List UInt8 → List UInt8} {varmap : StringMap} {key : List UInt8}
  {pieces : List (List UInt8)}

theorem find_referencePiece_other {piece : List UInt8}
    (other : pieceKey piece = key → key = []) :
    OrderedMap.find key (referencePiece behind varmap piece) = OrderedMap.find key varmap := by
  rw [referencePiece]
  split
  · rfl
  · next named =>
      rw [StringMap.set, OrderedMap.find_set, if_neg fun same => named (same.trans (other same))]

theorem find_storePiece_other {carried : List UInt8 × List UInt8 × StringMap} {piece : List UInt8}
    (other : apiStrtrim (keyText piece) = key → key = []) :
    OrderedMap.find key (storePiece behind carried piece).2.2 =
      OrderedMap.find key carried.2.2 := by
  rw [storePiece]
  dsimp only
  split
  · rfl
  · next named =>
      rw [StringMap.set, OrderedMap.find_set, if_neg fun same => named (same.trans (other same))]

theorem find_referencePieces_other (absent : ∀ piece ∈ pieces, pieceKey piece = key → key = []) :
    OrderedMap.find key (pieces.foldl (referencePiece behind) varmap) =
      OrderedMap.find key varmap := by
  induction pieces generalizing varmap with
  | nil => rfl
  | cons piece pieces ih =>
      obtain ⟨here, later⟩ := List.forall_mem_cons.mp absent
      rw [List.foldl_cons, ih later, find_referencePiece_other here]

theorem find_storePieces_other {carried : List UInt8 × List UInt8 × StringMap}
    (absent : ∀ piece ∈ pieces, apiStrtrim (keyText piece) = key → key = []) :
    OrderedMap.find key (pieces.foldl (storePiece behind) carried).2.2 =
      OrderedMap.find key carried.2.2 := by
  induction pieces generalizing carried with
  | nil => rfl
  | cons piece pieces ih =>
      obtain ⟨here, later⟩ := List.forall_mem_cons.mp absent
      rw [List.foldl_cons, ih later, find_storePiece_other here]

/-- A key that was stored stays in the map. -/
theorem find_storePieces_ne_none {carried : List UInt8 × List UInt8 × StringMap}
    (stored : OrderedMap.find key carried.2.2 ≠ none ∨
      key ≠ [] ∧ ∃ piece ∈ pieces, apiStrtrim (keyText piece) = key) :
    OrderedMap.find key (pieces.foldl (storePiece behind) carried).2.2 ≠ none := by
  induction pieces generalizing carried with
  | nil =>
      rcases stored with already | ⟨-, piece, absent, -⟩
      · exact already
      · cases absent
  | cons piece pieces ih =>
      rw [List.foldl_cons]
      apply ih
      by_cases here : apiStrtrim (keyText piece) = key
      · by_cases named : key = []
        · rcases stored with already | ⟨named', -⟩
          · left
            rw [storePiece, here, if_pos named]
            exact already
          · exact (named' named).elim
        · left
          rw [storePiece, here, if_neg named]
          dsimp only
          rw [StringMap.set, OrderedMap.find_set, if_pos rfl]
          exact Option.some_ne_none _
      · rw [find_storePiece_other fun isKey => (here isKey).elim]
        rcases stored with already | ⟨named, other, member, isKey⟩
        · exact .inl already
        · rcases List.mem_cons.mp member with rfl | later
          · exact (here isKey).elim
          · exact .inr ⟨named, other, later, isKey⟩

/-- Where all keys are trimmed. -/
theorem forall_find_iff {kept last : List UInt8} {stored parsed : StringMap}
    (trimmedKeys : ∀ piece ∈ pieces, apiStrtrim (keyText piece) = pieceKey piece) :
    (∀ key ∈ pieces.map pieceKey, key ≠ [] →
      OrderedMap.find key
          (pieces.foldl (storePiece behind) (kept, niuUrlFormatDecode behind last, stored)).2.2 =
        OrderedMap.find key (pieces.foldl (referencePiece behind) parsed)) ↔
      ValuesFollow behind kept last pieces := by
  induction pieces generalizing kept last stored parsed with
  | nil => exact iff_of_true (fun key absent => (List.not_mem_nil absent).elim) trivial
  | cons piece pieces ih =>
      obtain ⟨here, later⟩ := List.forall_mem_cons.mp trimmedKeys
      rw [ValuesFollow, List.map_cons, List.forall_mem_cons, List.foldl_cons, List.foldl_cons]
      dsimp only
      by_cases unnamed : pieceKey piece = []
      · have stays : storePiece behind (kept, niuUrlFormatDecode behind last, stored) piece =
            (kept ++ collectedText piece, niuUrlFormatDecode behind last, stored) := by
          rw [storePiece, here, if_pos unnamed]
        have unparsed : referencePiece behind parsed piece = parsed := if_pos unnamed
        rw [if_pos unnamed, stays, unparsed, ih later]
        exact and_iff_right fun named => (named unnamed).elim
      · let used := if kept ++ collectedText piece ≠ [] then kept ++ collectedText piece else last
        have stores : storePiece behind (kept, niuUrlFormatDecode behind last, stored) piece =
            ([], niuUrlFormatDecode behind used,
              stored.set (pieceKey piece) (niuUrlFormatDecode behind used)) := by
          rw [storePiece, here, if_neg unnamed]
          dsimp only [used]
          split <;> rfl
        have parses : referencePiece behind parsed piece =
            parsed.set (pieceKey piece) (niuUrlFormatDecode behind (valueText piece)) :=
          if_neg unnamed
        rw [if_neg unnamed, stores, parses, ih later]
        refine and_congr_left fun follows => ?_
        by_cases again : pieceKey piece ∈ pieces.map pieceKey
        · exact iff_of_true (fun named => (ih later).mpr follows _ again named)
            fun notAgain => (notAgain again).elim
        · have parsedLast (other : List UInt8) (member : other ∈ pieces)
              (same : pieceKey other = pieceKey piece) : pieceKey piece = [] :=
            (again (List.mem_map.mpr ⟨other, member, same⟩)).elim
          have storedLast (other : List UInt8) (member : other ∈ pieces)
              (same : apiStrtrim (keyText other) = pieceKey piece) : pieceKey piece = [] :=
            parsedLast other member ((later other member).symm.trans same)
          rw [find_storePieces_other storedLast, find_referencePieces_other parsedLast]
          simp only [StringMap.set, OrderedMap.find_set, if_true, Option.some.injEq]
          exact ⟨fun same _ => same unnamed, fun same _ => same again⟩

end Pieces

/-- Which texts are parsed as the reference does, up to what `_strtrim_` does to the keys. -/
theorem sameVars_iff (behind : List UInt8 → List UInt8) (data : List UInt8) :
    SameVars (niuPostGetVars behind data) (referenceVars behind data) ↔
      (∀ piece ∈ queryPieces data, apiStrtrim (keyText piece) = trimmed (keyText piece)) ∧
        ValuesFollow behind [] [] (queryPieces data) := by
  rw [niuPostGetVars_eq, referenceVars]
  have decodesNil : niuUrlFormatDecode behind [] = [] := rfl
  by_cases trimmedKeys : ∀ piece ∈ queryPieces data,
      apiStrtrim (keyText piece) = trimmed (keyText piece)
  · rw [and_iff_right trimmedKeys, ← forall_find_iff trimmedKeys, decodesNil]
    refine ⟨fun same key _ _ => same key, fun same key => ?_⟩
    by_cases named : key ∈ (queryPieces data).map pieceKey ∧ key ≠ []
    · exact same key named.1 named.2
    · have parsedNone (piece : List UInt8) (member : piece ∈ queryPieces data)
          (isKey : pieceKey piece = key) : key = [] :=
        not_not.mp fun nonempty => named ⟨List.mem_map.mpr ⟨piece, member, isKey⟩, nonempty⟩
      have storedNone (piece : List UInt8) (member : piece ∈ queryPieces data)
          (isKey : apiStrtrim (keyText piece) = key) : key = [] :=
        parsedNone piece member ((trimmedKeys piece member).symm.trans isKey)
      rw [find_storePieces_other storedNone, find_referencePieces_other parsedNone]
  · refine iff_of_false (fun same => trimmedKeys fun piece member => ?_)
      fun both => trimmedKeys both.1
    by_contra untrimmed
    have nonempty : apiStrtrim (keyText piece) ≠ [] := by
      intro empty
      refine untrimmed (@apiStrtrim_eq_of_trimmed (keyText piece) [] ?_)
      rw [empty]
      rfl
    have parsedNone (other : List UInt8) (_ : other ∈ queryPieces data)
        (isKey : pieceKey other = apiStrtrim (keyText piece)) : apiStrtrim (keyText piece) = [] :=
      (untrimmed (apiStrtrim_eq_of_trimmed isKey.symm)).elim
    have stored := @find_storePieces_ne_none behind (apiStrtrim (keyText piece))
      (queryPieces data) ([], [], []) (.inr ⟨nonempty, piece, member, rfl⟩)
    exact stored ((same _).trans (find_referencePieces_other parsedNone))

/-- Which texts are parsed as the reference does.  The blanks before each key are spaces,
tabs, carriage returns and line feeds in this order, again and again as long as each time
there are spaces. -/
theorem niuPostGetVars_iff (behind : List UInt8 → List UInt8) (data : List UInt8) :
    SameVars (niuPostGetVars behind data) (referenceVars behind data) ↔
      (∀ piece ∈ queryPieces data,
        Trimming.Peelable 0x20 [0x09, 0x0d, 0x0a] ((keyText piece).takeWhile isBlank)) ∧
        ValuesFollow behind [] [] (queryPieces data) := by
  rw [sameVars_iff]
  have trimmed (piece : List UInt8) := apiStrtrim_eq_trimmed_iff (keyText piece)
  exact and_congr_left' (forall₂_congr fun piece _ => trimmed piece)

/-- A variable without a value gets the one before it. -/
theorem not_niuPostGetVars :
    ¬∀ (behind : List UInt8 → List UInt8) (data : List UInt8),
      SameVars (niuPostGetVars behind data) (referenceVars behind data) := by
  intro same
  have carried : OrderedMap.find [0x62] (niuPostGetVars (fun _ => []) (octets "a=1&b=")) =
      some [0x31] := by decide
  have parsed : OrderedMap.find [0x62] (referenceVars (fun _ => []) (octets "a=1&b=")) =
      some [] := by decide
  cases carried.symm.trans ((same (fun _ => []) (octets "a=1&b=") [0x62]).trans parsed)

end Http1

end HeapHttpd
