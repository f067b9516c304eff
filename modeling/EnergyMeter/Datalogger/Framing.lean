import EnergyMeter.Datalogger.Grammar

/-!
# Datalogger — the parser on messages and on parts of them

The meter sends its messages one after the other, without anything between
them, so what a call of `recv` returns may end anywhere.

* `processArgs_fields` — the parser on a list of fields, each a name and a value.
* `messageText_args` — a message is a dollar sign and its arguments, joined.

Main results:

* `processInput_message` — a message is parsed into its fields.
* `processInput_cut` — a beginning of the stream gives the last column the value
  of the message only if it is the whole message and nothing else.
-/

namespace EnergyMeter.Datalogger

open EnergyMeter.Lib EnergyMeter.Meter EAttributes

/-! ## Arguments -/

/-- The name of a column: neither of the labels that give the board. -/
structure IsColumn (lbl : Text) : Prop where
  colon : ':' ∉ lbl
  esp : lbl ≠ "esp".toList
  bbb : lbl ≠ "bbb".toList

theorem processArg_field {st : Dict × ℤ} {f : Text × Text} (hName : IsColumn f.1)
    (hValue : ':' ∉ f.2) :
    processArg st (encode f) = some (Function.update st.1 f.1 (some f.2), st.2) := by
  have hSplit : (encode f).splitOn ':' = [f.1, f.2] :=
    splitOn_colon_iff.mpr ⟨rfl, hName.colon, hValue⟩
  unfold processArg
  rw [hSplit]
  simp only [if_neg hName.esp, if_neg hName.bbb]

theorem processArgs_fields {fs : List (Text × Text)} (hFields : ∀ f ∈ fs, IsColumn f.1 ∧ ':' ∉ f.2)
    (st : Dict × ℤ) :
    (fs.map encode).foldlM processArg st = some (fill st.1 fs, st.2) := by
  induction fs generalizing st with
  | nil => rfl
  | cons f fs ih =>
    obtain ⟨⟨hName, hValue⟩, hFields⟩ := List.forall_mem_cons.mp hFields
    rw [List.map_cons, List.foldlM_cons, processArg_field hName hValue]
    exact ih hFields _

/-- Where the parser succeeds, every argument has one colon, and what the
dictionary has under a name was there before or is in an argument. -/
theorem processArgs_some {args : List Text} {st st' : Dict × ℤ}
    (h : args.foldlM processArg st = some st') :
    (∀ arg ∈ args, ∃ lbl value, arg.splitOn ':' = [lbl, value]) ∧
      ∀ lbl value, st'.1 lbl = some value →
        st.1 lbl = some value ∨ ∃ arg ∈ args, arg.splitOn ':' = [lbl, value] := by
  -- the arguments are the codes of fields, whose parts have no colon
  obtain ⟨fs, hfs, rfl, rfl⟩ := Python.processArgs_eq_some_iff.mp (ascii_processArg ▸ h)
  have hSplit : ∀ f ∈ fs, (encode f).splitOn ':' = [f.1, f.2] := fun f hf =>
    splitOn_colon_iff.mpr ⟨rfl, (hfs f hf).label, (hfs f hf).value⟩
  constructor
  · intro arg hArg
    obtain ⟨f, hf, rfl⟩ := List.mem_map.mp hArg
    exact ⟨f.1, f.2, hSplit f hf⟩
  · intro lbl value hv
    rw [Python.foldl_setField] at hv
    refine (fill_eq_some hv).imp_right fun hMem => ?_
    have hf := List.mem_of_mem_filter hMem
    exact ⟨_, List.mem_map_of_mem hf, hSplit _ hf⟩

/-! ## Messages as fields -/

section Messages

variable {R : Type} [Field R] [LinearOrder R] [FloorRing R] {value : Fin 3 → EAttributes → R}

/-- The columns of a site meter after the time. -/
def columnNames : List Text :=
  (List.finRange 3).flatMap fun c => attributes.map fun a => paramName a ++ [phase c]

theorem cmeterColumns_tri :
    (Utils.ofLine cmeterParamsTri).cmeterColumns = "time".toList :: columnNames := by
  -- Reading a text out is quadratic in its length: phase by phase.
  unfold cmeterParamsTri
  rw [String.toList_append, String.toList_append]
  decide +kernel

theorem columnNames_nodup : columnNames.Nodup := by decide

theorem columnNames_ok : ∀ n ∈ columnNames,
    ':' ∉ n ∧ ',' ∉ n ∧ '$' ∉ n ∧ n ≠ "esp".toList ∧ n ≠ "bbb".toList ∧ n ≠ "time".toList := by
  decide

/-- What a message says, name by name. -/
def fields (value : Fin 3 → EAttributes → R) : List (Text × Text) :=
  (List.finRange 3).flatMap fun c =>
    attributes.map fun a => (paramName a ++ [phase c], twoDecimals (value c a))

/-- The values of a message, in the order of the columns. -/
def rowValues (value : Fin 3 → EAttributes → R) : List Text :=
  (List.finRange 3).flatMap fun c => attributes.map fun a => twoDecimals (value c a)

variable (value) in
theorem fields_names : (fields value).map Prod.fst = columnNames := by
  simp only [fields, columnNames, List.map_flatMap, List.map_map, Function.comp_def]

variable (value) in
theorem fields_values : (fields value).map Prod.snd = rowValues value := by
  simp only [fields, rowValues, List.map_flatMap, List.map_map, Function.comp_def]

theorem items_eq : items value = (fields value).map encode := by
  simp only [items, fields, List.map_flatMap, List.map_map, Function.comp_def, sprintfParam, encode,
    List.append_assoc, List.cons_append, List.nil_append]

theorem mem_fields {f : Text × Text} (h : f ∈ fields value) :
    f.1 ∈ columnNames ∧ ∃ c a, f.2 = twoDecimals (value c a) := by
  refine ⟨fields_names value ▸ List.mem_map_of_mem h, ?_⟩
  simp only [fields, List.mem_flatMap, List.mem_map] at h
  obtain ⟨c, -, a, -, rfl⟩ := h
  exact ⟨c, a, rfl⟩

theorem fields_isColumn : ∀ f ∈ fields value, IsColumn f.1 ∧ ':' ∉ f.2 := by
  intro f hf
  obtain ⟨hName, c, a, hValue⟩ := mem_fields hf
  obtain ⟨hColon, -, -, hEsp, hBbb, -⟩ := columnNames_ok _ hName
  refine ⟨⟨hColon, hEsp, hBbb⟩, ?_⟩
  rw [hValue]
  exact not_mem_twoDecimals (by simp only [valueChar]; decide) _

/-- A character that separates is in no field. -/
theorem not_mem_encode {ch : Char} (hNames : ∀ n ∈ columnNames, ch ∉ n) (hColon : ch ≠ ':')
    (hValue : ¬valueChar ch) : ∀ f ∈ fields value, ch ∉ encode f := by
  intro f hf
  obtain ⟨hName, c, a, hv⟩ := mem_fields hf
  rw [encode, hv, List.mem_append, List.mem_cons, not_or, not_or]
  exact ⟨hNames _ hName, hColon, not_mem_twoDecimals hValue _⟩

/-- The arguments of a message. -/
def args (value : Fin 3 → EAttributes → R) : List Text :=
  "bbb:1".toList :: (fields value).map encode

variable (value) in
theorem comma_not_mem_args : ∀ arg ∈ args value, ',' ∉ arg := by
  refine List.forall_mem_cons.mpr ⟨by decide, fun arg hArg => ?_⟩
  obtain ⟨f, hf, rfl⟩ := List.mem_map.mp hArg
  exact not_mem_encode (fun n hn => (columnNames_ok n hn).2.1) (by decide)
    (by simp only [valueChar]; decide) f hf

theorem dollar_not_mem_args : ∀ arg ∈ args value, '$' ∉ arg := by
  refine List.forall_mem_cons.mpr ⟨by decide, fun arg hArg => ?_⟩
  obtain ⟨f, hf, rfl⟩ := List.mem_map.mp hArg
  exact not_mem_encode (fun n hn => (columnNames_ok n hn).2.2.1) (by decide)
    (by simp only [valueChar]; decide) f hf

theorem messageText_args : messageText value = '$' :: [ ','].intercalate (args value) := by
  obtain ⟨item, rest, hEq⟩ := List.exists_cons_of_ne_nil (items_ne_nil value)
  rw [messageText_eq, args, ← items_eq, hEq, List.intercalate_cons_cons]
  rfl

/-- The last column of all. -/
def lastColumn : Text := "VF_C".toList

variable (value) in
/-- The last field of a message, and the ones before it. -/
theorem fields_last : ∃ init, fields value = init ++ [(lastColumn, twoDecimals (value 2 ATTR_VF))] ∧
    lastColumn ∉ init.map Prod.fst := by
  have hInit : fields value =
      (fields value).dropLast ++ [(lastColumn, twoDecimals (value 2 ATTR_VF))] := rfl
  refine ⟨_, hInit, fun hMem => ?_⟩
  have hNodup := columnNames_nodup
  rw [← fields_names value, hInit, List.map_append, List.nodup_append] at hNodup
  exact hNodup.2.2 _ hMem _ (List.mem_singleton_self _) rfl

/-! ## White space -/

def isPrintable (ch : Char) : Bool := 33 ≤ ch.toNat && ch.toNat < 127

omit [Field R] [LinearOrder R] [FloorRing R] in
theorem isPrintable_iff {ch : Char} :
    isPrintable ch = true ↔ 33 ≤ ch.toNat ∧ ch.toNat < 127 := by
  simp [isPrintable]

/-- What is sent is printable ASCII: decoding keeps it, and there is nothing to
strip. -/
theorem messageText_printable : ∀ ch ∈ messageText value, 33 ≤ ch.toNat ∧ ch.toNat < 127 := by
  intro ch hch
  rw [messageText_args] at hch
  -- the dollar sign, a comma, the board, a name, a colon or a value
  rcases List.mem_cons.mp hch with rfl | hch
  · decide
  rcases mem_intercalate_comma hch with rfl | ⟨arg, hArg, hch⟩
  · decide
  rcases List.mem_cons.mp hArg with rfl | hArg
  · have hBoard : "bbb:1".toList.all isPrintable = true := by decide
    exact isPrintable_iff.mp (List.all_eq_true.mp hBoard ch hch)
  obtain ⟨f, hf, rfl⟩ := List.mem_map.mp hArg
  obtain ⟨hName, c, a, hValue⟩ := mem_fields hf
  rw [encode, hValue, List.mem_append, List.mem_cons] at hch
  rcases hch with hch | rfl | hch
  · have hNames : ∀ n ∈ columnNames, n.all isPrintable = true := by decide
    exact isPrintable_iff.mp (List.all_eq_true.mp (hNames _ hName) ch hch)
  · decide
  · rcases valueChar_twoDecimals _ ch hch with rfl | rfl | hDigit
    · decide
    · decide
    · have hRange : 48 ≤ ch.toNat ∧ ch.toNat ≤ 57 := Char.isDigit_iff_toNat.mp hDigit
      omega

omit [Field R] [LinearOrder R] [FloorRing R] in
theorem rstrip_of_printable {s : Text} (h : ∀ ch ∈ s, 33 ≤ ch.toNat) : rstrip s = s := by
  refine List.rdropWhile_eq_self_iff.mpr fun hNe hSpace => ?_
  have hLast := h _ (List.getLast_mem hNe)
  simp only [isSpace, Bool.or_eq_true, Bool.and_eq_true, decide_eq_true_eq] at hSpace
  omega

/-! ## The parser on a message -/

omit [Field R] [LinearOrder R] [FloorRing R] in
theorem processArg_board (d : Dict) (n : ℤ) : processArg (d, n) "bbb:1".toList = some (d, 1) := by
  have hSplit : ("bbb:1".toList).splitOn ':' = ["bbb".toList, "1".toList] := by decide
  have hInt : int "1".toList = some 1 := by decide
  unfold processArg
  rw [hSplit]
  simp only [if_neg (show "bbb".toList ≠ "esp".toList by decide), if_true, hInt, Option.map_some]

variable (value) in
theorem processInput_message (now : DateTime) :
    processInput now (messageText value) = some (fill (startDict now) (fields value), 1) := by
  have hSplit : ([ ','].intercalate (args value)).splitOn ',' = args value :=
    List.splitOn_intercalate ',' (comma_not_mem_args value) (List.cons_ne_nil _ _)
  rw [messageText_args]
  unfold processInput
  simp only [if_true]
  rw [hSplit, args, List.foldlM_cons, processArg_board]
  exact processArgs_fields fields_isColumn _

variable (value) in
/-- A message has nothing at its end to strip. -/
theorem receiveInput_message (now : DateTime) :
    receiveInput now (messageText value) = some (fill (startDict now) (fields value), 1) := by
  rw [receiveInput, rstrip_of_printable fun ch hch => (messageText_printable ch hch).1]
  exact processInput_message value now

variable (value) in
/-- The columns of a message are its time and its values. -/
theorem mapM_message (now : DateTime) :
    ("time".toList :: columnNames).mapM (fill (startDict now) (fields value)) =
      some (strftime now :: rowValues value) := by
  have hTime : "time".toList ∉ (fields value).map Prod.fst := by
    rw [fields_names]
    exact fun h => (columnNames_ok _ h).2.2.2.2.2 rfl
  have hNodup : ((fields value).map Prod.fst).Nodup := by
    rw [fields_names]
    exact columnNames_nodup
  have hAll : ∀ f ∈ ("time".toList, strftime now) :: fields value,
      fill (startDict now) (fields value) f.1 = some f.2 := by
    refine List.forall_mem_cons.mpr ⟨?_, fun f hf => fill_of_mem hNodup hf⟩
    rw [fill_of_not_mem hTime, startDict, Function.update_self]
  have hCols := mapM_eq_some_iff.mpr (forall₂_fields_iff.mpr hAll)
  rwa [List.map_cons, List.map_cons, fields_names, fields_values] at hCols

/-! ## The parser on a beginning of the stream -/

/-- What may come behind a message: nothing, or the next one. -/
def Follows (t : Text) : Prop := t = [] ∨ ∃ t', t = "$bbb:1".toList ++ ',' :: t'

omit [Field R] [LinearOrder R] [FloorRing R] in
/-- The first argument of what follows is joined to the last one of the message. -/
theorem Follows.splitOn {t : Text} (h : Follows t) :
    ∃ hd tl, t.splitOn ',' = hd :: tl ∧ (tl = [] ∨ hd = "$bbb:1".toList) := by
  rcases h with rfl | ⟨t', rfl⟩
  · exact ⟨[], [], by simp, .inl rfl⟩
  · refine ⟨"$bbb:1".toList, t'.splitOn ',', ?_, .inr rfl⟩
    exact List.splitOn_append_cons_self_of_not_mem (by decide) t'

omit [Field R] [LinearOrder R] [FloorRing R] in
/-- No argument but the last begins with the name of the last column. -/
theorem label_ne_last {init : List (Text × Text)} (hInit : ∀ f ∈ init, IsColumn f.1 ∧ ':' ∉ f.2)
    (hLast : lastColumn ∉ init.map Prod.fst) {arg : Text}
    (hArg : arg ∈ "bbb:1".toList :: init.map encode) (rest : Text) :
    arg ≠ lastColumn ++ ':' :: rest := by
  rintro rfl
  rcases List.mem_cons.mp hArg with hEq | hMem
  · have hHead : some 'V' = some 'b' := congrArg List.head? hEq
    exact absurd hHead (by decide)
  · obtain ⟨f, hf, hEq⟩ := List.mem_map.mp hMem
    have hSplit : (encode f).splitOn ':' = [f.1, f.2] :=
      splitOn_colon_iff.mpr ⟨rfl, (hInit f hf).1.colon, (hInit f hf).2⟩
    rw [hEq, List.splitOn_append_cons_self_of_not_mem (by decide)] at hSplit
    exact hLast ((List.cons.inj hSplit).1 ▸ List.mem_map_of_mem hf)

omit [Field R] [LinearOrder R] [FloorRing R] in
/-- Where a beginning of a message and what follows it has an argument with the
last column and its value, and one colon in every argument, it is the message. -/
theorem cut_eq {first : List Text} {v c t : Text} (hFirst : ∀ arg ∈ first, ',' ∉ arg)
    (hLabel : ∀ arg ∈ first, ∀ rest, arg ≠ lastColumn ++ ':' :: rest)
    (hComma : ',' ∉ lastColumn ++ ':' :: v) (hColon : ':' ∉ v)
    (hc : c <+: [ ','].intercalate (first ++ [lastColumn ++ ':' :: v]) ++ t) (ht : Follows t)
    (hAll : ∀ arg ∈ c.splitOn ',', ∃ lbl value, arg.splitOn ':' = [lbl, value])
    (hLast : ∃ arg ∈ c.splitOn ',', arg.splitOn ':' = [lastColumn, v]) :
    c = [ ','].intercalate (first ++ [lastColumn ++ ':' :: v]) := by
  obtain ⟨hd, tl, htSplit, hFollows⟩ := ht.splitOn
  obtain ⟨pre, p, q, post, hcSplit, hSplit⟩ := splitOn_prefix hc
  rw [splitOn_intercalate_append hFirst hComma htSplit] at hSplit
  rw [hcSplit] at hAll hLast
  obtain ⟨arg, hArg, hArgSplit⟩ := hLast
  have hArgEq := (splitOn_colon_iff.mp hArgSplit).1
  -- a cut in the last argument or behind it, before the next comma
  have hExact : pre = first → c = [ ','].intercalate (first ++ [lastColumn ++ ':' :: v]) := by
    rintro rfl
    rcases List.mem_append.mp hArg with hArg | hArg
    · exact absurd hArgEq (hLabel arg hArg v)
    · rw [List.mem_singleton.mp hArg] at hArgEq
      have hJoin : [ ','].intercalate (c.splitOn ',') = c := List.intercalate_splitOn ','
      rw [← hJoin, hcSplit, hArgEq]
  rcases List.append_eq_append_iff.mp hSplit with ⟨mid, hPre, hRest⟩ | ⟨mid, hPre, hRest⟩
  · cases mid with
    | nil =>
      exact hExact (by rw [hPre, List.append_nil])
    | cons whole mid =>
      -- the cut is behind the next comma: an argument has two colons
      rw [List.cons_append] at hRest
      obtain ⟨hWhole, hTl⟩ := List.cons.inj hRest
      have hHd : hd = "$bbb:1".toList := hFollows.resolve_left (by
        rw [hTl]
        exact List.append_ne_nil_of_right_ne_nil _ (List.cons_ne_nil _ _))
      obtain ⟨lbl, value, hTwo⟩ := hAll whole (by simp [hPre])
      have hThree : whole.splitOn ':' = [lastColumn, v ++ "$bbb".toList, "1".toList] := by
        rw [← hWhole, hHd, List.append_assoc, List.cons_append,
          List.splitOn_append_cons_self_of_not_mem (by decide)]
        have hNot : ':' ∉ v ++ "$bbb".toList := by
          rw [List.mem_append, not_or]
          exact ⟨hColon, by decide⟩
        have hSplitV := List.splitOn_append_cons_self_of_not_mem hNot "1".toList
        rw [List.append_assoc] at hSplitV
        exact congrArg (lastColumn :: ·) hSplitV
      rw [hThree] at hTwo
      cases hTwo
  · cases mid with
    | nil =>
      exact hExact (by rw [hPre, List.append_nil])
    | cons whole mid =>
      -- the cut is before the last argument
      rw [List.cons_append] at hRest
      obtain ⟨hWhole, -⟩ := List.cons.inj hRest
      rcases List.mem_append.mp hArg with hArg | hArg
      · exact absurd hArgEq (hLabel arg (by simp [hPre, hArg]) v)
      · rw [List.mem_singleton.mp hArg] at hArgEq
        refine absurd ?_ (hLabel whole (by simp [hPre]) (v ++ q))
        rw [← hWhole, hArgEq, List.append_assoc, List.cons_append]

/-- A beginning of the stream gives the last column its value only if it is the
message: cut earlier, the column has no value or a part of it; cut later, its
value has more in it, or the argument two colons. -/
theorem processInput_cut {c t : Text} {now : DateTime} {d : Dict} {id : ℤ}
    (hc : c <+: messageText value ++ t) (ht : Follows t) (h : processInput now c = some (d, id))
    (hd : d lastColumn = some (twoDecimals (value 2 ATTR_VF))) : c = messageText value := by
  obtain ⟨init, hFields, hLast⟩ := fields_last value
  have hInit : ∀ f ∈ init, IsColumn f.1 ∧ ':' ∉ f.2 := fun f hf =>
    fields_isColumn f (hFields ▸ List.mem_append_left _ hf)
  -- the last column comes last in the message, so a cut before it loses it
  have hArgs : args value = ("bbb:1".toList :: init.map encode) ++
      [lastColumn ++ ':' :: twoDecimals (value 2 ATTR_VF)] := by
    rw [args, hFields, List.map_append]
    rfl
  have hComma := comma_not_mem_args value
  rw [hArgs] at hComma
  cases c with
  | nil => cases h
  | cons ch c =>
    rw [messageText_args, List.cons_append, List.cons_prefix_cons] at hc
    obtain ⟨rfl, hc⟩ := hc
    unfold processInput at h
    simp only [if_true] at h
    obtain ⟨hAll, hDict⟩ := processArgs_some h
    -- what the dictionary starts with does not hold the last column
    have hNotTime : startDict now lastColumn ≠ some (twoDecimals (value 2 ATTR_VF)) := fun hStart =>
      absurd (startDict_eq_some hStart).1 (by decide)
    have hLastArg := (hDict _ _ hd).resolve_left hNotTime
    rw [messageText_args, hArgs]
    rw [hArgs] at hc
    refine congrArg ('$' :: ·) (cut_eq ?_ ?_ ?_ ?_ hc ht hAll hLastArg)
    · exact fun arg hArg => hComma arg (List.mem_append_left _ hArg)
    · exact fun arg hArg => label_ne_last hInit hLast hArg
    · exact hComma _ (List.mem_append_right _ (List.mem_singleton_self _))
    · exact not_mem_twoDecimals (by simp only [valueChar]; decide) _

end Messages

end EnergyMeter.Datalogger
