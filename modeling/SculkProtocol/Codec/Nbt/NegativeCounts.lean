import SculkProtocol.Codec.Nbt.RoundTrip

/-!
# Negative counts in NBT

The number of elements of a list or an array is signed, and is cast to a size before anything
looks at its sign. `NegativeCount` says where in a text one stands; `deserialize` throws
`std::length_error` exactly on these (`fails_deserialize`).
-/

namespace SculkProtocol

open Decoder BinaryStream ReadOnlyBinaryStream StreamRead

/-- A count that is negative. -/
def NegativeSize (bs : Bytes) : Prop := ∃ size, IsSignedVarInt bs size ∧ size.toInt < 0

/-- The text up to a negative count, for a tag id. Everything before it is read. -/
inductive NegativeCount : TagType → Bytes → Prop
  | byteArrayTag {bs : Bytes} (h : NegativeSize bs) : NegativeCount TagType.byteArrayTag bs
  | intArrayTag {bs : Bytes} (h : NegativeSize bs) : NegativeCount TagType.intArrayTag bs
  | listTag {type : TagType} {bs : Bytes} (h : NegativeSize bs) : NegativeCount TagType.listTag
      (writeByte type ++ bs)
  | element {type : TagType} {before bs : Bytes} {size : Int32} {elements : List ElementText}
      (hsize : IsSignedVarInt before size) (hlength : elements.length < size.toInt)
      (helements : ∀ e ∈ elements, Payload type e.text e.value e.ids) (h : NegativeCount type bs) :
      NegativeCount TagType.listTag (writeByte type ++
        (before ++ (elements.flatMap ElementText.text ++ bs)))
  | entry {entries : List EntryText} {type : TagType} {keyText key bs : Bytes}
      (hkeys : ∀ e ∈ entries, e.type ≠ TagType.endTag ∧ IsString e.keyText e.key)
      (hvalues : ∀ e ∈ entries, Payload e.type e.valueText e.value e.ids)
      (hend : type ≠ TagType.endTag) (hkey : IsString keyText key) (h : NegativeCount type bs) :
      NegativeCount TagType.compoundTag (entries.flatMap EntryText.text ++
        (writeByte type ++ (keyText ++ bs)))

/-! ### Counts -/

theorem fails_resize_count {α : Type} (value : α) (size : Int32) (array : List α) :
    Fails Failure.Escapes (resize value (sizeCast size) array) fun bs : Bytes => size.toInt < 0 ∧
    bs = [] := by
  refine fails_resize.congr fun bs => and_congr_left' ?_
  rcases sizeCast_cases size with ⟨hpos, -, hle⟩ | ⟨hneg, hlt⟩
  · exact iff_of_false (Nat.not_lt.mpr hle) (Int.not_lt.mpr hpos)
  · exact iff_of_true hlt hneg

theorem raises_counted {α β : Type} (value : α) (array : List α) {f : List α → Reader β}
    {bs : Bytes}
    (h : NegativeSize bs) :
    Raises Failure.Escapes
      (StreamRead.reader readVarInt >>= fun size => resize value (sizeCast size) array >>= f)
        bs := by
  obtain ⟨size, hsize, hneg⟩ := h
  have hresize : Raises Failure.Escapes (resize value (sizeCast size) array >>= f) ([] : Bytes) :=
    ((fails_resize_count value size array).raises ⟨hneg, rfl⟩).bind_left
  rw [← List.append_nil bs]
  exact Raises.bind_right ((recognises_reader recognises_readVarInt).accepts hsize) hresize

/-- A signed count before a container, whose elements are safe. -/
theorem fails_counted {α β : Type} (value : α) (array : List α) {f : List α → Reader β}
    (hf : ∀ vs, Safe Failure.Escapes (f vs)) :
    Fails Failure.Escapes
      (StreamRead.reader readVarInt >>= fun size => resize value (sizeCast size) array >>= f)
        NegativeSize where
  blames := by
    refine (Blames.bind_safe (recognises_reader recognises_readVarInt).yields (safe_reader _)
        fun _ size _ =>
      (fails_resize_count value size array).blames.bind_left hf).mono fun bs => ?_
    rintro ⟨bs, _, size, rfl, hsize, hneg, rfl⟩
    rw [List.append_nil]
    exact ⟨size, hsize, hneg⟩
  raises h := raises_counted value array h

theorem fails_array {α : Type} (value : α) (read : StreamRead α) (mValue : List α) :
    Fails Failure.Escapes (ValueArrayTag.deserialize value read mValue) NegativeSize :=
  fails_counted value mValue fun vs => Safe.each (fun _ => safe_reader read) vs

/-! ### What throws has a negative count -/

/-- In a list: its own count, or one in an element after those before it. -/
theorem blames_list {element : TagVariant → Reader TagVariant}
    (hyields : ∀ type, Yields (element (TagVariant.endTag.emplace type)) fun bs v => ∃ ids,
      Payload type bs v ids)
    (hblames : ∀ type, Blames Failure.Escapes (element (TagVariant.endTag.emplace type))
      (NegativeCount type)) :
    Blames Failure.Escapes (ListTag.deserialize element []) (NegativeCount TagType.listTag) := by
  have hafter : ∀ (type : TagType) (vs : List TagVariant), (∀ v ∈ vs, v = .endTag) →
      Blames Failure.Escapes (each (fun v => element (v.emplace type)) vs >>=
          fun vs => pure (type, vs)) fun bs =>
        ∃ bs₁ bs₂ as, bs = bs₁ ++ bs₂ ∧ as.length < vs.length ∧
          Sequence (fun bs v => ∃ ids, Payload type bs v ids) bs₁ as ∧ NegativeCount type bs₂ := by
    intro type vs hvs
    refine (Blames.each (fun v hv => ?_) fun v hv => ?_).bind_left fun vs => safe_pure (type, vs)
    · rw [hvs v hv]
      exact hyields type
    · rw [hvs v hv]
      exact hblames type
  refine (Blames.bind_safe recognises_readTagType.yields (safe_reader _) fun _ type _ =>
    Blames.bind_safe (recognises_reader recognises_readVarInt).yields (safe_reader _)
        fun _ size _ =>
      Blames.bind (recognises_resize_count TagVariant.endTag size).yields
        (fails_resize_count _ size []).blames
        fun _ vs hvs => hafter type vs fun v hv => List.eq_of_mem_replicate (hvs.2.2 ▸ hv)).mono
          fun bs => ?_
  rintro ⟨_, _, type, rfl, rfl, before, _, size, rfl, hsize, hrest⟩
  -- the count of the list is negative, or one in an element
  rcases hrest with ⟨hneg, rfl⟩ | ⟨_, _, _, rfl, ⟨hpos, rfl, rfl⟩, bs₁, bs₂, vs, rfl,
    hlength, hs, hbs⟩
  · rw [List.append_nil]
    exact .listTag ⟨size, hsize, hneg⟩
  · obtain ⟨elements, helements, rfl, rfl⟩ := sequence_elements.mp hs
    rw [List.length_map, List.length_replicate] at hlength
    exact .element hsize (by omega) helements hbs

/-- In a compound: in an entry after those before it. -/
theorem blames_entries {fuel : ℕ}
    (hblames : ∀ type,
      Blames Failure.Escapes (TagVariant.deserializeFuel fuel (TagVariant.endTag.emplace type))
      (NegativeCount type))
    (hentries : ∀ mValue,
      Blames Failure.Escapes (CompoundTag.deserializeFuel fuel mValue)
        (NegativeCount TagType.compoundTag))
    (mValue : List (Bytes × TagVariant)) :
    Blames Failure.Escapes (CompoundTag.deserializeFuel (fuel + 1) mValue)
      (NegativeCount TagType.compoundTag) := by
  have hafter : ∀ type, Blames Failure.Escapes
      (if type = TagType.endTag then pure mValue
      else do
        let key ← StreamRead.reader readString
        let value ← TagVariant.deserializeFuel fuel (TagVariant.endTag.emplace type)
        CompoundTag.deserializeFuel fuel (emplaceEntry key value mValue))
      fun bs => NegativeCount TagType.compoundTag (writeByte type ++ bs) := by
    intro type
    by_cases hend : type = TagType.endTag
    · rw [if_pos hend]
      exact (safe_pure mValue).blames
    · rw [if_neg hend]
      refine (Blames.bind_safe (recognises_reader recognises_readString).yields (safe_reader _)
          fun _ key _ =>
        Blames.bind ((yields_deserializeFuel fuel).1 type) (hblames type) fun _ value _ =>
          hentries (emplaceEntry key value mValue)).mono fun bs => ?_
      rintro ⟨keyText, _, key, rfl, hkey, hbs | ⟨valueText, _, value, rfl, ⟨ids, hids⟩, hbs⟩⟩
      · exact @NegativeCount.entry [] _ _ _ _ (fun _ h => absurd h List.not_mem_nil)
          (fun _ h => absurd h List.not_mem_nil) hend hkey hbs
      · -- the entry that was read joins those before the count
        generalize hcompound : TagType.compoundTag = compound at hbs
        cases hbs with
        | @entry entries type' keyText' key' bs' hkeys hvalues hend' hkey' h =>
          have hnew : ∀ e ∈ (⟨type, keyText, key, valueText, value, ids⟩ : EntryText) :: entries,
              (e.type ≠ TagType.endTag ∧ IsString e.keyText e.key) ∧
                  Payload e.type e.valueText e.value e.ids := by
            intro e he
            rcases List.mem_cons.mp he with rfl | he
            · exact ⟨⟨hend, hkey⟩, hids⟩
            · exact ⟨hkeys e he, hvalues e he⟩
          have hentry :=
            NegativeCount.entry (fun e he => (hnew e he).1) (fun e he => (hnew e he).2)
              hend' hkey' h
          simp only [List.flatMap_cons, EntryText.text, List.append_assoc] at hentry ⊢
          exact hentry
        | _ => exact absurd hcompound (by decide)
  refine (Blames.bind_safe recognises_readTagType.yields (safe_reader _)
    fun _ type _ => hafter type).mono
    fun bs => ?_
  rintro ⟨_, bs, type, rfl, rfl, h⟩
  exact h

/-- What throws has read a negative count. -/
theorem blames_deserializeFuel (fuel : ℕ) :
    (∀ type,
      Blames Failure.Escapes (TagVariant.deserializeFuel fuel (TagVariant.endTag.emplace type))
      (NegativeCount type)) ∧
    ∀ mValue, Blames Failure.Escapes (CompoundTag.deserializeFuel fuel mValue)
      (NegativeCount TagType.compoundTag) := by
  have hempty : ∀ {α : Type} {R : Bytes → Prop},
      Blames Failure.Escapes (fail (.error "") : Reader α) R := by
    intro α R s e _ he hE
    rw [← Except.error.inj he] at hE
    exact hE.elim
  induction fuel with
  | zero => exact ⟨fun _ => hempty, fun _ => hempty⟩
  | succ fuel ih =>
    obtain ⟨hblames, hentries⟩ := ih
    refine ⟨fun type => ?_, blames_entries hblames hentries⟩
    by_cases hdefined : type.IsDefined
    swap
    · rw [emplace_undefined hdefined]
      exact (safe_pure _).blames
    -- values without a count are safe
    rcases defined_cases hdefined with
      rfl | rfl | rfl | rfl | rfl | rfl | rfl | rfl | rfl | rfl | rfl
    · exact ((safe_reader _).bind fun v => safe_pure (TagVariant.byteTag v)).blames
    · exact ((safe_reader _).bind fun v => safe_pure (TagVariant.shortTag v)).blames
    · exact ((safe_reader _).bind fun v => safe_pure (TagVariant.intTag v)).blames
    · exact ((safe_reader _).bind fun v => safe_pure (TagVariant.longTag v)).blames
    · exact ((safe_reader _).bind fun bits => safe_pure (TagVariant.floatTag bits)).blames
    · exact ((safe_reader _).bind fun bits => safe_pure (TagVariant.doubleTag bits)).blames
    · exact ((fails_array 0 readSignedChar []).blames.bind_left fun vs => safe_pure
        (TagVariant.byteArrayTag vs)).mono
        fun _ => .byteArrayTag
    · exact ((safe_reader _).bind fun v => safe_pure (TagVariant.stringTag v)).blames
    · exact (blames_list (yields_deserializeFuel fuel).1 hblames).bind_left fun list =>
        safe_pure (TagVariant.listTag list.1 list.2)
    · exact (hentries []).bind_left fun entries => safe_pure (TagVariant.compoundTag entries)
    · exact ((fails_array 0 readVarInt []).blames.bind_left fun vs => safe_pure
        (TagVariant.intArrayTag vs)).mono
        fun _ => .intArrayTag

/-! ### A negative count throws -/

/-- An element of a list, after those before it. -/
theorem raises_element {element : TagVariant → Reader TagVariant} {type : TagType}
    {before bs : Bytes} {size : Int32}
    {elements : List ElementText} (hsize : IsSignedVarInt before size)
    (hlength : elements.length < size.toInt)
    (helements : ∀ e ∈ elements, Accepts (element (TagVariant.endTag.emplace type)) e.text e.value)
    (h : Raises Failure.Escapes (element (TagVariant.endTag.emplace type)) bs) :
    Raises Failure.Escapes (ListTag.deserialize element [])
      (writeByte type ++ (before ++ (elements.flatMap ElementText.text ++ bs))) := by
  -- the count is positive, since an element follows those before
  have hresize : Accepts (resize TagVariant.endTag (sizeCast size) []) ([] : Bytes)
      (List.replicate size.toInt.toNat TagVariant.endTag) :=
    (recognises_resize_count _ size).accepts ⟨by omega, rfl, rfl⟩
  have heach : Raises Failure.Escapes
      (each (fun v : TagVariant => element (v.emplace type))
        (List.replicate size.toInt.toNat .endTag))
      (elements.flatMap ElementText.text ++ bs) := by
    refine Raises.each (sequence_map fun e he v hv => ?_ : Sequence _ _
      (elements.map ElementText.value)) ?_
      fun v hv => ?_
    · rw [List.eq_of_mem_replicate hv]
      exact helements e he
    · rw [List.length_replicate, List.length_map]
      omega
    · rw [List.eq_of_mem_replicate hv]
      exact h
  exact Raises.bind_right (recognises_readTagType.accepts rfl)
    (Raises.bind_right ((recognises_reader recognises_readVarInt).accepts hsize)
      (Raises.bind_right_nil hresize heach.bind_left))

theorem length_pos_of_isString {bs v : Bytes} (h : IsString bs v) : 1 ≤ bs.length := by
  obtain ⟨before, length, rfl, hlength, -⟩ := h
  rw [List.length_append]
  exact Nat.le_trans hlength.length_pos (Nat.le_add_right ..)

/-- An entry of a compound, after those before it. -/
theorem raises_entry {entries : List EntryText} {type : TagType} {keyText key bs : Bytes}
    (hkeys : ∀ e ∈ entries, e.type ≠ TagType.endTag ∧ IsString e.keyText e.key)
    (hvalues : ∀ e ∈ entries, ∀ fuel ≥ e.valueText.length,
      Accepts (TagVariant.deserializeFuel (fuel + 1) (TagVariant.endTag.emplace e.type))
        e.valueText e.value)
    (hend : type ≠ TagType.endTag) (hkey : IsString keyText key)
    (h : ∀ fuel ≥ bs.length,
      Raises Failure.Escapes
        (TagVariant.deserializeFuel (fuel + 1) (TagVariant.endTag.emplace type)) bs)
    (mValue : List (Bytes × TagVariant)) {fuel : ℕ}
    (hfuel : (entries.flatMap EntryText.text ++ (writeByte type ++ (keyText ++ bs))).length ≤
      fuel) :
    Raises Failure.Escapes (CompoundTag.deserializeFuel fuel mValue)
      (entries.flatMap EntryText.text ++ (writeByte type ++ (keyText ++ bs))) := by
  have hpos := length_pos_of_isString hkey
  induction entries generalizing mValue fuel with
  | nil =>
    simp only [List.flatMap_nil, List.nil_append, List.length_append, writeByte,
      List.length_singleton] at hfuel ⊢
    -- the id and the key take two bytes
    obtain ⟨fuel, rfl⟩ := Nat.exists_eq_add_of_le' (show 2 ≤ fuel by omega)
    refine Raises.bind_right (recognises_readTagType.accepts rfl) ?_
    rw [if_neg hend]
    exact Raises.bind_right ((recognises_reader recognises_readString).accepts hkey)
      (h fuel (by omega)).bind_left
  | cons e entries ih =>
    obtain ⟨hend', hkey'⟩ := hkeys e List.mem_cons_self
    rw [List.flatMap_cons, EntryText.text] at hfuel ⊢
    simp only [List.length_append, writeByte, List.length_singleton] at hfuel
    obtain ⟨fuel, rfl⟩ := Nat.exists_eq_add_of_le' (show 2 ≤ fuel by omega)
    have hrest := @ih (fun e he => hkeys e (List.mem_cons_of_mem _ he))
      (fun e he => hvalues e (List.mem_cons_of_mem _ he)) (emplaceEntry e.key e.value mValue)
          (fuel + 1) (by
        simp only [List.length_append, writeByte, List.length_singleton]
        omega)
    have hvalue := hvalues e List.mem_cons_self fuel (by omega)
    simp only [List.append_assoc] at hrest ⊢
    refine Raises.bind_right (recognises_readTagType.accepts rfl) ?_
    rw [if_neg hend']
    exact Raises.bind_right ((recognises_reader recognises_readString).accepts hkey')
      (Raises.bind_right hvalue hrest)

/-- A negative count throws. -/
theorem NegativeCount.raises {type : TagType} {bs : Bytes} (h : NegativeCount type bs) :
    ∀ fuel ≥ bs.length,
      Raises Failure.Escapes
        (TagVariant.deserializeFuel (fuel + 1) (TagVariant.endTag.emplace type)) bs := by
  induction h with
  | byteArrayTag h => exact fun _ _ => ((fails_array 0 readSignedChar []).raises h).bind_left
  | intArrayTag h => exact fun _ _ => ((fails_array 0 readVarInt []).raises h).bind_left
  | listTag h =>
    exact fun _ _ =>
      (Raises.bind_right (recognises_readTagType.accepts rfl) (raises_counted _ [] h)).bind_left
  -- the elements before it are shorter than the list, and so is it
  | element hsize hlength helements _ ih =>
    intro fuel hfuel
    simp only [List.length_append, writeByte, List.length_singleton] at hfuel
    obtain ⟨fuel, rfl⟩ := Nat.exists_eq_add_of_le' (show 1 ≤ fuel by omega)
    refine (raises_element hsize hlength (fun e he => (helements e he).accepts fuel ?_)
      (ih fuel ?_)).bind_left
    · have htext : e.text.length ≤ _ := length_le_flatMap he
      omega
    · omega
  | entry hkeys hvalues hend hkey _ ih =>
    intro fuel hfuel
    exact (raises_entry hkeys (fun e he => (hvalues e he).accepts) hend hkey ih [] hfuel).bind_left

/-- The readers of NBT throw exactly on a negative count. -/
theorem fails_deserialize (type : TagType) :
    Fails Failure.Escapes (TagVariant.endTag.emplace type).deserialize (NegativeCount type) where
  blames s e hs := (blames_deserializeFuel (s.left + 1)).1 type s e hs
  raises := by
    intro bs h s rest hs hrest
    refine h.raises s.left ?_ s rest hs hrest
    have hlength : s.getLeftBufferView.length = (bs ++ rest).length := congrArg List.length hrest
    rw [left_eq, hlength, List.length_append]
    exact Nat.le_add_right ..

/-- `ListTag::deserialize`, into a new list. -/
theorem fails_list :
    Fails Failure.Escapes (ListTag.deserialize TagVariant.deserialize [])
      (NegativeCount TagType.listTag) where
  blames :=
    blames_list (fun type s s' v hs => (yields_deserializeFuel (s.left + 1)).1 type s s' v hs)
    fun type => (fails_deserialize type).blames
  raises := by
    intro bs h
    generalize hlist : TagType.listTag = type at h
    cases h with
    | listTag h =>
      exact Raises.bind_right (recognises_readTagType.accepts rfl) (raises_counted _ [] h)
    | element hsize hlength helements h =>
      refine raises_element hsize hlength (fun e he => ?_) ((fails_deserialize _).raises h)
      intro s rest hs hrest
      refine (helements e he).accepts s.left ?_ s rest hs hrest
      have hleft : s.getLeftBufferView.length = (e.text ++ rest).length :=
        congrArg List.length hrest
      rw [left_eq, hleft, List.length_append]
      exact Nat.le_add_right ..
    | _ => exact absurd hlist (by decide)

end SculkProtocol
