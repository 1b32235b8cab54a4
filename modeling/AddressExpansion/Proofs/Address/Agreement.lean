import AddressExpansion.Proofs.Address.RoundTrip

/-! # Addresses alone and in blocks

An address is read alone by a stricter grammar than in a block. The two readings differ in two
things only: inside a block a byte may begin with a needless zero, and `::` may stand for no
group. Where an address is written without either, a block is read exactly if its address is.
-/

namespace AddressExpansion

open Text

/-! ## Bytes -/

/-- Whether a byte is written with a zero at its front that it does not need. -/
def HasNeedlessZero (piece : List Char) : Prop :=
  piece.head? = some '0' ∧ piece.length ≠ 1

instance (piece : List Char) : Decidable (HasNeedlessZero piece) :=
  inferInstanceAs (Decidable (_ ∧ _))

theorem readOctet?_plain {piece : List Char} {n : Nat} : readOctet? .plain piece = some n ↔
    readOctet? .inBlock piece = some n ∧ ¬ HasNeedlessZero piece := by
  unfold readOctet? HasNeedlessZero
  cases readNumber? 10 3 piece with
  | none => simp
  | some m =>
      simp only [Option.bind_eq_bind, Option.bind_some, AddressGrammar.plain,
        AddressGrammar.inBlock]
      grind

theorem readOctets?_plain {cs : List Char} {octets : List Nat} :
    readOctets? .plain cs = some octets ↔
      readOctets? .inBlock cs = some octets ∧
      ∀ piece ∈ splitAll '.' cs, ¬ HasNeedlessZero piece := by
  unfold readOctets?
  dsimp only
  split
  · exact mapM_eq_some_iff_of_guarded fun _ _ => readOctet?_plain
  · simp

theorem point_mem_of_readOctets? {grammar : AddressGrammar} {cs : List Char} {octets : List Nat}
    (read : readOctets? grammar cs = some octets) : '.' ∈ cs := by
  by_contra whole
  unfold readOctets? at read
  rw [splitAll_of_not_mem whole] at read
  cases read

/-! ## Groups -/

theorem point_not_mem_of_readNumber? {piece : List Char} {group : Nat}
    (number : readNumber? 16 4 piece = some group) : '.' ∉ piece := by
  intro point
  cases digit_of_readNumber? number '.' point

theorem ne_nil_of_readNumber? {base most n : Nat} {piece : List Char}
    (number : readNumber? base most piece = some n) : piece ≠ [] := by
  rintro rfl
  cases number

/-- Whether the bytes at the end of an address, if there are any, have no needless zeros. -/
def PlainTail (tail : List Char) : Prop :=
  '.' ∈ tail → ∀ piece ∈ splitAll '.' tail, ¬ HasNeedlessZero piece

instance (tail : List Char) : Decidable (PlainTail tail) :=
  inferInstanceAs (Decidable (_ → _))

/-- What stands after the last colon of a text; all of it if there is none. -/
def afterColons (cs : List Char) : List Char :=
  (splitAll ':' cs).getLastD []

theorem readTail?_plain {piece : List Char} {groups : List Nat} :
    readTail? .plain piece = some groups ↔
      readTail? .inBlock piece = some groups ∧ PlainTail piece := by
  unfold readTail? PlainTail
  simp only [Option.map_eq_some_iff, readOctets?_plain]
  constructor
  · rintro ⟨octets, ⟨read, plain⟩, same⟩
    exact ⟨⟨octets, read, same⟩, fun _ => plain⟩
  · rintro ⟨⟨octets, read, same⟩, plain⟩
    exact ⟨octets, ⟨read, plain (point_mem_of_readOctets? read)⟩, same⟩

theorem readPieces?_cons {grammar : AddressGrammar} {tail : Bool} {piece : List Char}
    {pieces : List (List Char)} (more : pieces ≠ []) :
    readPieces? grammar tail (piece :: pieces) = (readNumber? 16 4 piece).bind fun group =>
      (readPieces? grammar tail pieces).map (group :: ·) := by
  rw [readPieces?]
  · simp only [Option.bind_eq_bind, Option.map_eq_bind]
    rfl
  · exact more

theorem readPieces?_plain {tail : Bool} {pieces : List (List Char)} {groups : List Nat} :
    readPieces? .plain tail pieces = some groups ↔
      readPieces? .inBlock tail pieces = some groups ∧ PlainTail (pieces.getLastD []) := by
  fun_induction readPieces? .inBlock tail pieces generalizing groups with
  | case1 => simp [readPieces?, PlainTail]
  | case2 piece group number =>
      have none : '.' ∉ piece := point_not_mem_of_readNumber? number
      simp [readPieces?, number, PlainTail, none]
  | case3 piece number allowed =>
      simp only [readPieces?, number, if_pos allowed]
      exact readTail?_plain
  | case4 piece number refused =>
      simp only [readPieces?, number, if_neg refused, reduceCtorEq, false_and]
  | case5 piece pieces more ih =>
      rw [readPieces?_cons more]
      obtain ⟨next, pieces, rfl⟩ := List.exists_cons_of_ne_nil more
      simp only [Option.bind_eq_bind, Option.bind_eq_some_iff, Option.map_eq_some_iff, ih,
        List.getLastD_cons, Option.pure_def, Option.some.injEq]
      constructor
      · rintro ⟨group, number, groups', ⟨others, plain⟩, same⟩
        exact ⟨⟨group, number, groups', others, same⟩, plain⟩
      · rintro ⟨⟨group, number, groups', others, same⟩, plain⟩
        exact ⟨group, number, groups', ⟨others, plain⟩, same⟩

/-- Each piece is a group; a tail of four bytes is one more. -/
theorem length_of_readPieces? {grammar : AddressGrammar} {tail : Bool}
    {pieces : List (List Char)} {groups : List Nat}
    (read : readPieces? grammar tail pieces = some groups) :
    groups.length = pieces.length + (if '.' ∈ pieces.getLastD [] then 1 else 0) ∧
      (tail = false → '.' ∉ pieces.getLastD []) ∧ ∀ piece ∈ pieces, piece ≠ [] := by
  fun_induction readPieces? grammar tail pieces generalizing groups with
  | case1 => cases read; simp
  | case2 piece group number =>
      have none : '.' ∉ piece := point_not_mem_of_readNumber? number
      have filled := ne_nil_of_readNumber? number
      cases read
      simp [none, filled]
  | case3 piece number allowed =>
      obtain ⟨octets, bytes, rfl⟩ := Option.map_eq_some_iff.mp read
      have point := point_mem_of_readOctets? bytes
      have filled : piece ≠ [] := List.ne_nil_of_mem point
      simp [point, filled, allowed]
  | case4 => cases read
  | case5 piece pieces more ih =>
      obtain ⟨next, pieces, rfl⟩ := List.exists_cons_of_ne_nil more
      obtain ⟨group, number, read⟩ := Option.bind_eq_some_iff.mp read
      obtain ⟨groups', others, same⟩ := Option.bind_eq_some_iff.mp read
      cases same
      obtain ⟨count, noTail, filled⟩ := ih others
      rw [List.forall_mem_cons]
      refine ⟨?_, noTail, ne_nil_of_readNumber? number, filled⟩
      rw [List.length_cons, List.length_cons, count]
      simp only [List.getLastD_cons]
      omega

/-! ## Texts of groups -/

/-- The number of groups that a text of groups gives, those apart that `::` stands for. -/
def groupsGiven (cs : List Char) : Nat :=
  ((splitAll ':' cs).filter (· ≠ [])).length + if '.' ∈ afterColons cs then 1 else 0

theorem afterColons_append (cs rest : List Char) :
    afterColons (cs ++ ':' :: rest) = afterColons rest := by
  have last := List.getLast?_eq_some_getLast (splitAll_ne_nil ':' rest)
  unfold afterColons
  rw [splitAll_append_separator, List.getLastD_eq_getLast?, List.getLastD_eq_getLast?,
    List.getLast?_append, last, Option.some_or]

theorem afterColons_of_not_mem {cs : List Char} (whole : ':' ∉ cs) : afterColons cs = cs := by
  unfold afterColons
  rw [splitAll_of_not_mem whole]
  rfl

theorem groupsGiven_double {before after : List Char} (groups : '.' ∉ afterColons before) :
    groupsGiven (before ++ ':' :: ':' :: after) = groupsGiven before + groupsGiven after := by
  have split : splitAll ':' (before ++ ':' :: ':' :: after) =
      splitAll ':' before ++ [] :: splitAll ':' after := by
    rw [splitAll_append_separator]
    exact congrArg (splitAll ':' before ++ ·) (splitAll_append_separator [] after)
  have last : afterColons (before ++ ':' :: ':' :: after) = afterColons after :=
    (afterColons_append before _).trans (afterColons_append [] after)
  unfold groupsGiven
  rw [split, last, if_neg groups, List.filter_append, List.length_append]
  simp [Nat.add_assoc]

theorem readGroups?_plain {tail : Bool} {cs : List Char} {groups : List Nat} :
    readGroups? .plain tail cs = some groups ↔
      readGroups? .inBlock tail cs = some groups ∧ PlainTail (afterColons cs) := by
  unfold readGroups?
  split
  next empty =>
    subst empty
    simp [PlainTail, afterColons, splitAll]
  next => exact readPieces?_plain

theorem length_of_readGroups? {grammar : AddressGrammar} {tail : Bool} {cs : List Char}
    {groups : List Nat} (read : readGroups? grammar tail cs = some groups) :
    groups.length = groupsGiven cs ∧ (tail = false → '.' ∉ afterColons cs) := by
  unfold readGroups? at read
  split at read
  next empty =>
    subst empty
    cases read
    simp [groupsGiven, afterColons, splitAll]
  next =>
    obtain ⟨count, noTail, filled⟩ := length_of_readPieces? read
    have all : (splitAll ':' cs).filter (· ≠ []) = splitAll ':' cs :=
      List.filter_eq_self.mpr fun piece member => decide_eq_true (filled piece member)
    unfold groupsGiven
    rw [all]
    exact ⟨count, noTail⟩

/-! ## Eight groups -/

/-- Whether `::`, if it stands in a text of groups, stands for one group at least. -/
def PlainGap (cs : List Char) : Prop :=
  (splitDouble? ':' cs).isSome → groupsGiven cs < 8

instance (cs : List Char) : Decidable (PlainGap cs) :=
  inferInstanceAs (Decidable (_ → _))

section EightGroups

variable {grammar : AddressGrammar} {cs before after : List Char} {groups : List Nat}

theorem readEightGroups?_single (single : splitDouble? ':' cs = none) :
    readEightGroups? grammar cs = some groups ↔
      readGroups? grammar true cs = some groups ∧ groups.length = 8 := by
  unfold readEightGroups?
  rw [single]
  simp only [Option.bind_eq_bind, Option.bind_eq_some_iff, Option.ite_none_right_eq_some,
    Option.some.injEq]
  constructor
  · rintro ⟨_, read, eight, rfl⟩
    exact ⟨read, eight⟩
  · rintro ⟨read, eight⟩
    exact ⟨groups, read, eight, rfl⟩

theorem readEightGroups?_double (double : splitDouble? ':' cs = some (before, after)) :
    readEightGroups? grammar cs = some groups ↔
      ∃ front back, readGroups? grammar false before = some front ∧
        readGroups? grammar true after = some back ∧
        (front.length < 8 ∧ front.length + back.length + grammar.leastGap ≤ 8) ∧
        front ++ List.replicate (8 - (front.length + back.length)) 0 ++ back = groups := by
  unfold readEightGroups?
  rw [double]
  simp only [Option.bind_eq_bind, Option.bind_eq_some_iff, Option.ite_none_right_eq_some,
    Option.some.injEq]
  constructor
  · rintro ⟨front, first, back, second, room, same⟩
    exact ⟨front, back, first, second, room, same⟩
  · rintro ⟨front, back, first, second, room, same⟩
    exact ⟨front, first, back, second, room, same⟩

theorem readEightGroups?_plain :
    readEightGroups? .plain cs = some groups ↔
      readEightGroups? .inBlock cs = some groups ∧ PlainTail (afterColons cs) ∧ PlainGap cs := by
  cases double : splitDouble? ':' cs with
  | none =>
      have gap : PlainGap cs := by simp [PlainGap, double]
      rw [readEightGroups?_single double, readEightGroups?_single double, readGroups?_plain]
      simp only [gap, and_true]
      exact and_right_comm
  | some parts =>
      obtain ⟨before, after⟩ := parts
      have text := splitDouble?_eq_some double
      have last : afterColons cs = afterColons after := by
        rw [text, afterColons_append]
        exact afterColons_append [] after
      -- Nothing in front of `::` is read as bytes, so the grammar does not matter there.
      have front_plain : ∀ {front}, readGroups? .inBlock false before = some front →
          PlainTail (afterColons before) := fun read point =>
        absurd point ((length_of_readGroups? read).2 rfl)
      have given : ∀ {front back}, readGroups? .inBlock false before = some front →
          readGroups? .inBlock true after = some back →
          groupsGiven cs = front.length + back.length := by
        intro front back first second
        obtain ⟨frontCount, noTail⟩ := length_of_readGroups? first
        rw [text, groupsGiven_double (noTail rfl), frontCount, (length_of_readGroups? second).1]
      have gap : PlainGap cs ↔ groupsGiven cs < 8 := by simp [PlainGap, double]
      rw [readEightGroups?_double double, readEightGroups?_double double, gap, last]
      have strict : AddressGrammar.plain.leastGap = 1 := rfl
      have loose : AddressGrammar.inBlock.leastGap = 0 := rfl
      simp only [readGroups?_plain, strict, loose]
      constructor
      · rintro ⟨front, back, ⟨first, -⟩, ⟨second, tail⟩, ⟨few, room⟩, same⟩
        have count := given first second
        exact ⟨⟨front, back, first, second, ⟨few, by omega⟩, same⟩, tail, by omega⟩
      · rintro ⟨⟨front, back, first, second, ⟨few, room⟩, same⟩, tail, less⟩
        have count := given first second
        exact ⟨front, back, ⟨first, front_plain first⟩, ⟨second, tail⟩, ⟨few, by omega⟩, same⟩

theorem colon_mem_of_readEightGroups? (read : readEightGroups? grammar cs = some groups) :
    ':' ∈ cs := by
  by_contra whole
  obtain ⟨read, eight⟩ := (readEightGroups?_single (splitDouble?_of_not_mem whole)).mp read
  have count := (length_of_readGroups? read).1
  have pieces := List.length_filter_le (· ≠ []) (splitAll ':' cs)
  unfold groupsGiven at count
  rw [splitAll_of_not_mem whole] at count pieces
  split at count <;> simp only [List.length_singleton] at pieces <;> omega

end EightGroups

/-! ## Addresses -/

/-- Whether an address is written plainly: no byte has a needless zero at its front, and `::`
    stands for a group if it is there. -/
def WrittenPlainly (cs : List Char) : Prop :=
  PlainTail (afterColons cs) ∧ PlainGap cs

instance (cs : List Char) : Decidable (WrittenPlainly cs) :=
  inferInstanceAs (Decidable (_ ∧ _))

theorem readIp?_eq_some {grammar : AddressGrammar} {cs : List Char} {ip : Ip} :
    readIp? grammar cs = some ip ↔
      (∃ octets, readOctets? grammar cs = some octets ∧
        Ip.ofNat? .v4 (ofPlaces 256 octets) = some ip) ∨
      ∃ groups, readEightGroups? grammar cs = some groups ∧
        Ip.ofNat? .v6 (ofPlaces 65536 groups) = some ip := by
  unfold readIp?
  cases bytes : readOctets? grammar cs with
  | none => simp [Option.bind_eq_some_iff]
  | some octets =>
      have noGroups : ∀ groups, readEightGroups? grammar cs ≠ some groups := fun _ read =>
        colon_not_mem_of_readOctets? bytes (colon_mem_of_readEightGroups? read)
      simp [noGroups]

/-- An address is read alone exactly if it is read in a block and written plainly. -/
theorem readIp?_plain {cs : List Char} {ip : Ip} :
    readIp? .plain cs = some ip ↔ readIp? .inBlock cs = some ip ∧ WrittenPlainly cs := by
  have bytes : ∀ octets, readOctets? .plain cs = some octets ↔
      readOctets? .inBlock cs = some octets ∧ WrittenPlainly cs := by
    intro octets
    rw [readOctets?_plain]
    refine and_congr_right fun read => ?_
    have whole := colon_not_mem_of_readOctets? read
    simp [WrittenPlainly, PlainTail, PlainGap, afterColons_of_not_mem whole,
      splitDouble?_of_not_mem whole, point_mem_of_readOctets? read]
  simp only [readIp?_eq_some, bytes, readEightGroups?_plain]
  unfold WrittenPlainly
  grind

/-! ## Literals -/

namespace Address

theorem classify_eq_host {token : String} {ip : Ip} : classify token = some (.host ip) ↔
    readIp? .plain (trimBlanks token.toList) = some ip := by
  unfold classify
  dsimp only
  cases readIp? .plain (trimBlanks token.toList) <;> simp

theorem classify_of_slash {token : String} (slash : '/' ∈ trimBlanks token.toList) :
    classify token = (readBlock? (trimBlanks token.toList)).map .network := by
  have noAddress : readIp? .plain (trimBlanks token.toList) = none := by
    cases read : readIp? .plain (trimBlanks token.toList) with
    | none => rfl
    | some => exact absurd (char_of_readIp? read '/' slash) slash_not_isAddressChar
  unfold classify
  dsimp only
  rw [noAddress]

theorem isBlank_of_length {n : Nat} : ∀ c ∈ '/' :: decimalText n, isBlank c = false := by
  rw [List.forall_mem_cons]
  refine ⟨by decide, fun c member => not_isBlank (.inl (.inl (digitValue?_sixteen ?_)))⟩
  exact digit_of_numberOf? (numberOf?_toDigits (by decide) (by decide) n) c member

/-- An address and a block agree. Take a text without a slash and without blanks around it, and
    the text of a block with it for its address and any length. The second is never an address.
    It is a block, and the first is written plainly, exactly if the first is an address, which
    then is the address of the block, bits after its length included, and the length is within
    its width. What is not written plainly is no literal alone. -/
theorem block_agrees_with_address (token : String) (n : Nat) (noSlash : '/' ∉ token.toList)
    (trimmed : Text.trim token = token) :
    (∀ ip, classify (token ++ "/" ++ toString n) ≠ some (.host ip)) ∧
    (∀ b : Block,
      classify (token ++ "/" ++ toString n) = some (.network b) ∧ WrittenPlainly token.toList ↔
        classify token = some (.host b.address) ∧ b.length = n) ∧
    (¬ WrittenPlainly token.toList → classify token = none) := by
  have alone : trimBlanks token.toList = token.toList := by
    have same := congrArg String.toList trimmed
    rwa [Text.trim, String.toList_ofList] at same
  have both : trimBlanks (token ++ "/" ++ toString n).toList =
      token.toList ++ '/' :: decimalText n := by
    have text : (token ++ "/" ++ toString n).toList = token.toList ++ '/' :: decimalText n := by
      simp [decimalText]
    rw [text]
    exact trimBlanks_append alone (List.cons_ne_nil _ _) isBlank_of_length
  have block : classify (token ++ "/" ++ toString n) =
      (readBlock? (token.toList ++ '/' :: decimalText n)).map .network := by
    rw [← both]
    apply classify_of_slash
    rw [both]
    exact List.mem_append_right _ List.mem_cons_self
  refine ⟨fun ip => ?_, fun b => ?_, fun unplain => ?_⟩
  · rw [block]
    simp
  · have read : classify (token ++ "/" ++ toString n) = some (.network b) ↔
        readIp? .inBlock token.toList = some b.address ∧ b.length = n := by
      rw [block, ← readBlock?_eq_some noSlash]
      simp
    rw [read, classify_eq_host, alone, readIp?_plain, and_right_comm]
  · have noAddress : readIp? .plain token.toList = none := by
      cases read : readIp? .plain token.toList with
      | none => rfl
      | some => exact absurd (readIp?_plain.mp read).2 unplain
    unfold classify readBlock?
    dsimp only
    rw [alone, noAddress, splitFirst?_of_not_mem noSlash]
    rfl

/-- Bits after the length are kept, and a needless zero is refused alone. -/
theorem block_agrees_with_address_of_two :
    let ip : Ip := ⟨.v4, 0x0A000001, by decide⟩
    '/' ∉ "10.0.0.1".toList ∧ Text.trim "10.0.0.1" = "10.0.0.1" ∧
      classify ("10.0.0.1" ++ "/" ++ toString 8) = some (.network ⟨ip, 8, by decide⟩) ∧
    '/' ∉ "010.0.0.1".toList ∧ Text.trim "010.0.0.1" = "010.0.0.1" ∧
      ¬ WrittenPlainly "010.0.0.1".toList ∧ classify "010.0.0.1" = none := by
  intro ip
  have noSlash : '/' ∉ "10.0.0.1".toList ∧ '/' ∉ "010.0.0.1".toList := by decide
  have trimmed : Text.trim "10.0.0.1" = "10.0.0.1" ∧ Text.trim "010.0.0.1" = "010.0.0.1" := by
    decide
  have alone : classify "10.0.0.1" = some (.host ip) := by decide
  have unplain : ¬ WrittenPlainly "010.0.0.1".toList := by decide
  obtain ⟨-, agrees, -⟩ := block_agrees_with_address "10.0.0.1" 8 noSlash.1 trimmed.1
  obtain ⟨-, -, refused⟩ := block_agrees_with_address "010.0.0.1" 8 noSlash.2 trimmed.2
  exact ⟨noSlash.1, trimmed.1, ((agrees ⟨ip, 8, by decide⟩).mpr ⟨alone, rfl⟩).1, noSlash.2,
    trimmed.2, unplain, refused unplain⟩

/-- Whether a token, if it has no slash and no blanks around it, is an address exactly if a block
    with it for its address is read, of a length within its width. -/
def AgreesWithBlock (token : String) (n : Nat) : Prop :=
  '/' ∉ token.toList → Text.trim token = token →
    ((∃ b, classify (token ++ "/" ++ toString n) = some (.network b)) ↔
      ∃ ip, classify token = some (.host ip) ∧ n ≤ ip.family.width)

theorem not_agreesWithBlock {token : String} {n : Nat} {b : Block} (noSlash : '/' ∉ token.toList)
    (trimmed : Text.trim token = token) (refused : classify token = none)
    (read : classify (token ++ "/" ++ toString n) = some (.network b)) :
    ¬ AgreesWithBlock token n := by
  intro agrees
  obtain ⟨ip, alone, -⟩ := (agrees noSlash trimmed).mp ⟨b, read⟩
  rw [refused] at alone
  cases alone

/-- A byte with a needless zero, in an address of either family, and `::` that stands for no
    group are read in a block and not alone. -/
theorem read_only_in_block :
    ¬ AgreesWithBlock "010.0.0.1" 8 ∧ ¬ AgreesWithBlock "::ffff:010.0.0.1" 104 ∧
      ¬ AgreesWithBlock "1:2:3:4:5:6:7::8" 64 := by
  have first : classify ("010.0.0.1" ++ "/" ++ toString 8) =
      some (.network ⟨⟨.v4, 0x0A000001, by decide⟩, 8, by decide⟩) := by decide
  have second : classify ("::ffff:010.0.0.1" ++ "/" ++ toString 104) =
      some (.network ⟨⟨.v6, 0xFFFF0A000001, by decide⟩, 104, by decide⟩) := by decide
  have third : classify ("1:2:3:4:5:6:7::8" ++ "/" ++ toString 64) =
      some (.network ⟨⟨.v6, 0x10002000300040005000600070008, by decide⟩, 64, by decide⟩) := by
    decide
  exact ⟨not_agreesWithBlock (by decide) (by decide) (by decide) first,
    not_agreesWithBlock (by decide) (by decide) (by decide) second,
    not_agreesWithBlock (by decide) (by decide) (by decide) third⟩

end Address

end AddressExpansion
