import SculkProtocol.Utility.WireCodecs

/-!
# The texts of the combinators

An array is a count and so many elements; a map is a count and so many entries, of which the first
with a key stays; a variant is an index and the alternative at it. The count and the index are texts
of the prefix, which need not be the ones that are written.

Each combinator has two rules: it yields such texts if the decoder of the elements yields theirs,
and accepts them if that accepts theirs. A decoder that calls itself needs them apart.
-/

namespace SculkProtocol

open Decoder BinaryStream ReadOnlyBinaryStream StreamRead

/-! ### Prefixes -/

/-- A length has the texts of its number. -/
theorem Prefix.recognises_readLength {before : Prefix} {P : Bytes → BitVec before.width → Prop}
    (h : Recognises before.read P) (message : String) : Recognises (before.readLength message) P :=
  recognises_reader h.mapError

/-- The texts of a length of four bytes. -/
theorem recognises_unsignedInt :
    Recognises Prefix.unsignedInt.read fun bs v => bs = Prefix.unsignedInt.write v := by
  refine (recognises_scalar Scalar.uint32).bind_pure.congr fun bs v => ⟨?_, ?_⟩
  · rintro ⟨a, rfl, rfl⟩
    rfl
  · rintro rfl
    exact ⟨UInt32.ofBitVec v, rfl, rfl⟩

/-- The texts of a length that is a varint. -/
theorem recognises_unsignedVarInt :
    Recognises Prefix.unsignedVarInt.read fun bs (v : BitVec 32) => IsVarInt 16 5 bs v.toNat := by
  refine recognises_readUnsignedVarInt.bind_pure.congr fun bs v => ⟨?_, ?_⟩
  · rintro ⟨a, ha, rfl⟩
    exact ha
  · intro h
    exact ⟨UInt32.ofBitVec v, h, rfl⟩

/-- A 32-bit count is a size. -/
theorem toSize_unsignedVarInt (v : BitVec 32) : Prefix.unsignedVarInt.toSize v = v.toNat := by
  show (BitVec.ofInt 64 ((v.toNat : ℕ) : ℤ)).toNat = v.toNat
  rw [BitVec.ofInt_natCast, BitVec.toNat_ofNat, Nat.mod_eq_of_lt (Nat.lt_trans v.isLt (by decide))]

/-! ### Arrays -/

section

variable {α : Type} {value : α} {r : Reader α} {L : Bytes → α → Prop} {bs : Bytes} {xs : List α}

/-- Elements behind their number. -/
def IsArrayText (L : Bytes → α → Prop) (bs : Bytes) (xs : List α) : Prop :=
  ∃ (before body : Bytes) (count : UInt32), bs = before ++ body ∧ IsVarInt 16 5 before count.toNat ∧
    xs.length = count.toNat ∧ Sequence L body xs

/-- So many new elements. -/
theorem recognises_resize_new (n : ℕ) : Recognises (resize value n []) fun (bs : Bytes) as =>
    n ≤ maxSize ∧ bs = [] ∧ as = List.replicate n value :=
  recognises_resize.congr fun bs as => by rw [List.take_nil, List.nil_append, List.length_nil,
    Nat.sub_zero]

/-- An array has the texts of its length and its elements. -/
theorem yields_readArray (h : Yields r L) :
    Yields (readArray Prefix.unsignedVarInt value (fun _ => r) []) (IsArrayText L) := by
  refine ((Prefix.recognises_readLength recognises_unsignedVarInt _).yields.bind fun _ length _ =>
    (recognises_resize_new _).yields.bind fun _ ts _ => Yields.each fun _ _ => h).mono
      fun bs xs => ?_
  rintro ⟨before, _, length, rfl, hbefore, _, body, _, rfl, ⟨-, rfl, rfl⟩, hlength, hs⟩
  rw [List.length_replicate] at hlength
  exact ⟨before, body, ⟨length⟩, rfl, hbefore, hlength.trans (toSize_unsignedVarInt length), hs⟩

/-- Such texts are accepted. -/
theorem accepts_arrayText (h : IsArrayText (Accepts r) bs xs) :
    Accepts (readArray Prefix.unsignedVarInt value (fun _ => r) []) bs xs := by
  obtain ⟨before, body, count, rfl, hbefore, hlength, hs⟩ := h
  refine ((Prefix.recognises_readLength recognises_unsignedVarInt _).accepts hbefore).bind ?_
  have hsize : Prefix.unsignedVarInt.toSize count.toBitVec = xs.length :=
    (toSize_unsignedVarInt _).trans hlength.symm
  rw [hsize]
  -- a count is of 32 bits, so the elements are allocated
  have hle : xs.length ≤ maxSize := by
    rw [hlength]
    exact Nat.le_trans (Nat.le_of_lt count.toNat_lt) (by decide)
  have hresize : Accepts (resize value xs.length []) [] (List.replicate xs.length value) :=
    (recognises_resize_new _).accepts ⟨hle, rfl, rfl⟩
  -- the elements are read one for one into new ones, from which nothing is taken
  have heach : Accepts (each (fun _ => r) (List.replicate xs.length value)) body xs :=
    Accepts.each (hs.mono fun _ _ ha _ _ => ha) List.length_replicate
  exact hresize.bind heach

end

/-! ### Maps -/

section

variable {κ α : Type} [LT κ] [DecidableLT κ] [Trans (α := κ) (· < ·) (· < ·) (· < ·)]
  {key : κ} {value : α} {r : κ → α → Reader (κ × α)} {L : Bytes → κ × α → Prop} {bs : Bytes}
  {m : OrderedMap κ α}

/-- The map after some entries. -/
def OrderedMap.emplaceAll (m : OrderedMap κ α) (es : List (κ × α)) : OrderedMap κ α :=
  es.foldl (fun m e => m.emplace e.1 e.2) m

/-- Entries behind their number. -/
def IsMapText (L : Bytes → κ × α → Prop) (bs : Bytes) (m : OrderedMap κ α) : Prop :=
  ∃ (before body : Bytes) (count : UInt32) (es : List (κ × α)), bs = before ++ body ∧
    IsVarInt 16 5 before count.toNat ∧ es.length = count.toNat ∧ Sequence L body es ∧
    m = OrderedMap.empty.emplaceAll es

/-- Entries have their texts one behind the other. -/
theorem yields_readMapEntries (h : Yields (r key value) L) (n : ℕ) (m : OrderedMap κ α) :
    Yields (readMapEntries key value r n m) fun bs m' =>
      ∃ es, es.length = n ∧ Sequence L bs es ∧ m' = m.emplaceAll es := by
  -- on the number of entries, for every map that they are emplaced in
  induction n generalizing m with
  | zero =>
    refine (yields_pure m).mono fun bs m' => ?_
    rintro ⟨rfl, rfl⟩
    exact ⟨[], rfl, sequence_nil.mpr rfl, rfl⟩
  | succ n ih =>
    refine (h.bind fun _ e _ => ih (m.emplace e.1 e.2)).mono fun bs m' => ?_
    rintro ⟨bs₁, bs₂, e, rfl, he, es, rfl, hs, rfl⟩
    exact ⟨e :: es, rfl, sequence_cons.mpr ⟨bs₁, bs₂, rfl, he, hs⟩, rfl⟩

/-- Such texts are accepted. -/
theorem accepts_mapEntries {es : List (κ × α)} (h : Sequence (Accepts (r key value)) bs es)
    (m : OrderedMap κ α) :
    Accepts (readMapEntries key value r es.length m) bs (m.emplaceAll es) := by
  induction es generalizing bs m with
  | nil =>
    rw [sequence_nil.mp h]
    exact accepts_pure m
  | cons e es ih =>
    obtain ⟨bs₁, bs₂, rfl, he, hs⟩ := sequence_cons.mp h
    exact he.bind (ih hs (m.emplace e.1 e.2))

/-- A map has the texts of its length and its entries. -/
theorem yields_readMap (h : Yields (r key value) L) :
    Yields (readMap Prefix.unsignedVarInt key value r) (IsMapText L) := by
  refine ((Prefix.recognises_readLength recognises_unsignedVarInt _).yields.bind fun _ length _ =>
    yields_readMapEntries h _ OrderedMap.empty).mono fun bs m => ?_
  rintro ⟨before, body, length, rfl, hbefore, es, hlength, hs, rfl⟩
  exact ⟨before, body, ⟨length⟩, es, rfl, hbefore, hlength, hs, rfl⟩

/-- Such texts are accepted. -/
theorem accepts_mapText (h : IsMapText (Accepts (r key value)) bs m) :
    Accepts (readMap Prefix.unsignedVarInt key value r) bs m := by
  obtain ⟨before, body, count, es, rfl, hbefore, hlength, hs, rfl⟩ := h
  refine ((Prefix.recognises_readLength recognises_unsignedVarInt _).accepts hbefore).bind ?_
  have hrounds : (Prefix.unsignedVarInt.value count.toBitVec).toNat = es.length := hlength.symm
  rw [hrounds]
  exact accepts_mapEntries hs OrderedMap.empty

/-- Entries in their order are emplaced one behind the other. -/
theorem OrderedMap.entries_emplaceAll [Std.Asymm (α := κ) (· < ·)] {m : OrderedMap κ α}
    {es : List (κ × α)}
    (h : SortedEntries (m.entries ++ es)) : (m.emplaceAll es).entries = m.entries ++ es := by
  induction es generalizing m with
  | nil => exact (List.append_nil _).symm
  | cons e es ih =>
    have hnext : (m.emplace e.1 e.2).entries = m.entries ++ [e] := h.emplaceEntry_next
    rw [List.append_cons, ← hnext] at h
    rw [List.append_cons, ← hnext]
    exact ih h

end

/-! ### Variants -/

section

variable {n : ℕ} [NeZero n] {T : Fin n → Type} {before : Prefix}
  {P : Bytes → BitVec before.width → Prop}
  {new : ∀ i, T i} {r : ∀ i, T i → Reader (T i)} {L : ∀ i, Bytes → T i → Prop}

/-- An alternative behind its index. -/
theorem yields_readVariant (hbefore : Recognises before.read P)
    (h : ∀ i, Yields (r i (new i)) (L i)) :
    Yields (readVariant .plain before new r) fun bs var =>
      ∃ index body v, bs = index ++ body ∧ P index v ∧ before.toSize v = var.1 ∧
      L var.1 body var.2 := by
  refine ((Prefix.recognises_readLength hbefore _).yields.bind
    (M := fun v bs (var : Variant T) => before.toSize v = var.1 ∧ L var.1 bs var.2)
      fun _ v _ => ?_).mono
    fun bs var => ?_
  · split
    · -- an index that is no alternative
      exact yields_fail
    · next var hvar =>
      obtain ⟨hindex, hnew⟩ := emplaceVariantSwitch_ok hvar
      rw [hnew]
      refine (h var.1).bind_pure.mono fun bs c => ?_
      rintro ⟨a, ha, rfl⟩
      exact ⟨hindex, ha⟩
  rintro ⟨index, body, v, rfl, hindex, hv, hL⟩
  exact ⟨index, body, v, rfl, hindex, hv, hL⟩

end

end SculkProtocol
