import Kaleidoscope.Operator.Association

/-! Entries of association lists laid over others, one after another. A key keeps the place of its first entry and the
value of its last one, and it makes no difference how the entries are put together before. -/
namespace Kaleidoscope.Association

variable {α β γ δ : Type} [DecidableEq α] [DecidableEq γ] {key other : α} {value old : β}
  {entries more last : List (α × β)}

theorem insertAll_cons (entries : List (α × β)) (entry : α × β) (more : List (α × β)) :
    insertAll entries (entry :: more) = insertAll (insert entry.1 entry.2 entries) more := rfl

theorem insertAll_append (entries more last : List (α × β)) :
    insertAll entries (more ++ last) = insertAll (insertAll entries more) last :=
  List.foldl_append

theorem mem_keys_insert : other ∈ keys (insert key value entries) ↔ other = key ∨ other ∈ keys entries := by
  rw [keys_insert]
  split
  · next present =>
    constructor
    · exact .inr
    · rintro (rfl | member)
      · exact present
      · exact member
  · simp [or_comm]

theorem insert_insert : insert key value (insert key old entries) = insert key value entries := by
  induction entries with
  | nil => simp [insert]
  | cons entry entries ih =>
    by_cases same : entry.1 = key
    · simp [insert, same]
    · simp [insert, same, ih]

/-- A key that is present keeps its place, so it does not matter when its value is replaced. -/
theorem insert_comm (different : key ≠ other) (present : key ∈ keys entries) (value new : β) :
    insert key value (insert other new entries) = insert other new (insert key value entries) := by
  induction entries with
  | nil => cases present
  | cons entry entries ih =>
    by_cases same : entry.1 = key
    · simp [insert, same, different]
    · have present : key ∈ keys entries := by
        simpa [keys, Ne.symm same] using present
      by_cases same' : entry.1 = other
      · simp [insert, same', Ne.symm different]
      · simp [insert, same, same', ih present]

theorem insert_insertAll (present : key ∈ keys entries) (absent : key ∉ keys more) :
    insert key value (insertAll entries more) = insertAll (insert key value entries) more := by
  induction more generalizing entries with
  | nil => rfl
  | cons entry more ih =>
    obtain ⟨different, absent⟩ : key ≠ entry.1 ∧ key ∉ keys more := by simpa [keys] using absent
    rw [insertAll_cons, insertAll_cons, ih (mem_keys_insert.mpr (.inr present)) absent,
      insert_comm different present]

/-- To lay over an entry with the others is to lay it over what the others give. -/
theorem insertAll_insert (distinct : (keys more).Nodup) :
    insertAll entries (insert key value more) = insert key value (insertAll entries more) := by
  induction more generalizing entries with
  | nil => rfl
  | cons entry more ih =>
    obtain ⟨fresh, distinct⟩ : entry.1 ∉ keys more ∧ (keys more).Nodup := by simpa [keys] using distinct
    by_cases same : entry.1 = key
    -- The key is not met again, so replacing its value here or behind all the others comes to the same.
    · have present : key ∈ keys (insert entry.1 entry.2 entries) := mem_keys_insert.mpr (.inl same.symm)
      rw [insert, if_pos same, insertAll_cons, insertAll_cons, insert_insertAll present (same ▸ fresh), same,
        insert_insert]
    · rw [insert, if_neg same, insertAll_cons, insertAll_cons, ih distinct]

theorem insertAll_insertAll (distinct : (keys more).Nodup) (last : List (α × β)) :
    insertAll entries (insertAll more last) = insertAll (insertAll entries more) last := by
  induction last generalizing more with
  | nil => rfl
  | cons entry last ih =>
    rw [insertAll_cons, insertAll_cons, ih (nodup_keys_insert _ _ distinct), insertAll_insert distinct]

/-- Entries count for what is left of them when they are put together by themselves. -/
theorem insertAll_collected (entries more : List (α × β)) :
    insertAll entries (insertAll [] more) = insertAll entries more := by
  have distinct : (keys ([] : List (α × β))).Nodup := List.nodup_nil
  exact insertAll_insertAll distinct more

theorem insertAll_congr (same : insertAll [] more = insertAll [] last) :
    insertAll entries more = insertAll entries last := by
  rw [← insertAll_collected entries more, same, insertAll_collected]

theorem insertAll_fresh (distinct : (keys (entries ++ more)).Nodup) : insertAll entries more = entries ++ more := by
  induction more generalizing entries with
  | nil => simp [insertAll]
  | cons entry more ih =>
    have split : entries ++ entry :: more = (entries ++ [entry]) ++ more := by simp
    have fresh : entry.1 ∉ keys entries := by
      intro member
      rw [keys, List.map_append, List.nodup_append] at distinct
      exact distinct.2.2 _ member _ (by simp) rfl
    rw [insertAll_cons, insert_fresh entry.2 fresh, split]
    exact ih (split ▸ distinct)

theorem eraseDups_of_nodup {all : List α} (distinct : all.Nodup) : all.eraseDups = all := by
  induction all with
  | nil => rfl
  | cons a rest ih =>
    obtain ⟨fresh, distinct⟩ := List.nodup_cons.mp distinct
    have kept : rest.filter (fun b => !b == a) = rest := by
      refine List.filter_eq_self.mpr fun b member => ?_
      simpa using fun same : b = a => fresh (same ▸ member)
    rw [List.eraseDups_cons, kept, ih distinct]

theorem keys_insertAll (distinct : (keys entries).Nodup) (more : List (α × β)) :
    keys (insertAll entries more) = (keys entries ++ keys more).eraseDups := by
  induction more generalizing entries with
  | nil => simpa [insertAll, keys] using (eraseDups_of_nodup distinct).symm
  | cons entry more ih =>
    rw [insertAll_cons, ih (nodup_keys_insert _ _ distinct), keys_insert]
    split
    · next present =>
      have known : keys (entry :: more) = entry.1 :: keys more := rfl
      have dropped : (entry.1 :: keys more).removeAll (keys entries) = (keys more).removeAll (keys entries) := by
        simp [List.removeAll, present]
      rw [List.eraseDups_append, List.eraseDups_append, known, dropped]
    · rw [List.append_assoc]
      rfl

theorem mem_keys_insertAll : key ∈ keys (insertAll [] more) ↔ key ∈ keys more := by
  have distinct : (keys ([] : List (α × β))).Nodup := List.nodup_nil
  rw [keys_insertAll distinct, List.mem_eraseDups]
  rfl

theorem mem_insertAll {entry : α × β} (member : entry ∈ insertAll entries more) :
    entry ∈ entries ∨ entry ∈ more := by
  induction more generalizing entries with
  | nil => exact .inl member
  | cons first more ih =>
    rcases ih member with here | later
    · rcases mem_insert here with rfl | old
      · exact .inr List.mem_cons_self
      · exact .inl old
    · exact .inr (List.mem_cons_of_mem _ later)

theorem find?_rename {f : α → γ} (injective : Function.Injective f) (g : β → δ) (key : α) (entries : List (α × β)) :
    find? (f key) (entries.map (Prod.map f g)) = (find? key entries).map g := by
  induction entries with
  | nil => rfl
  | cons entry entries ih =>
    by_cases same : entry.1 = key
    · simp [find?, same]
    · simp [find?, same, injective.eq_iff, ih]

theorem find?_append (key : α) (entries more : List (α × β)) :
    find? key (entries ++ more) = (find? key entries).or (find? key more) := by
  induction entries with
  | nil => rfl
  | cons entry entries ih =>
    by_cases same : entry.1 = key
    · simp [find?, same]
    · simp [find?, same, ih]

theorem find?_insertAll (key : α) (entries more : List (α × β)) :
    find? key (insertAll entries more) = (find? key more.reverse).or (find? key entries) := by
  induction more generalizing entries with
  | nil => rfl
  | cons entry more ih =>
    rw [insertAll_cons, ih, List.reverse_cons, find?_append, Option.or_assoc]
    by_cases same : entry.1 = key
    · rw [same, find?_insert_self]
      simp [find?, same]
    · rw [find?_insert_other (Ne.symm same)]
      simp [find?, same]

/-- Keys and values may be renamed before or after, as long as no two keys are made the same. -/
theorem insert_rename {f : α → γ} (injective : Function.Injective f) (g : β → δ) (key : α) (value : β)
    (entries : List (α × β)) :
    (insert key value entries).map (Prod.map f g) = insert (f key) (g value) (entries.map (Prod.map f g)) := by
  induction entries with
  | nil => rfl
  | cons entry entries ih =>
    by_cases same : entry.1 = key
    · simp [insert, same]
    · have other : f entry.1 ≠ f key := injective.ne same
      rw [insert, if_neg same, List.map_cons, ih]
      exact (if_neg other).symm

theorem insertAll_rename {f : α → γ} (injective : Function.Injective f) (g : β → δ)
    (entries more : List (α × β)) : (insertAll entries more).map (Prod.map f g) =
      insertAll (entries.map (Prod.map f g)) (more.map (Prod.map f g)) := by
  induction more generalizing entries with
  | nil => rfl
  | cons entry more ih =>
    rw [insertAll_cons, ih, insert_rename injective]
    rfl

end Kaleidoscope.Association
