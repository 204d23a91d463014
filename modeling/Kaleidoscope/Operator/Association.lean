/-!
# Association lists in order of first insertion

Inserting under a key that is present replaces its value and leaves it in its place; a new key goes
to the end.
-/

namespace Kaleidoscope.Association

variable {α β : Type} [DecidableEq α]

def insert (key : α) (value : β) : List (α × β) → List (α × β)
  | [] => [(key, value)]
  | (k, v) :: rest => if k = key then (key, value) :: rest else (k, v) :: insert key value rest

def insertAll (entries more : List (α × β)) : List (α × β) :=
  more.foldl (fun all entry => insert entry.1 entry.2 all) entries

def find? (key : α) : List (α × β) → Option β
  | [] => none
  | (k, v) :: rest => if k = key then some v else find? key rest

def keys (entries : List (α × β)) : List α := entries.map Prod.fst

@[simp] theorem find?_insert_self (key : α) (value : β) (entries : List (α × β)) :
    find? key (insert key value entries) = some value := by
  induction entries with
  | nil => simp [insert, find?]
  | cons entry rest ih =>
    obtain ⟨k, v⟩ := entry
    by_cases h : k = key <;> simp [insert, find?, h, ih]

theorem find?_insert_other {key other : α} (h : other ≠ key) (value : β)
    (entries : List (α × β)) : find? other (insert key value entries) = find? other entries := by
  induction entries with
  | nil => simp [insert, find?, h.symm]
  | cons entry rest ih =>
    obtain ⟨k, v⟩ := entry
    by_cases hk : k = key
    · subst hk; simp [insert, find?, h.symm]
    · simp [insert, find?, hk, ih]

theorem keys_insert (key : α) (value : β) (entries : List (α × β)) :
    keys (insert key value entries) =
      if key ∈ keys entries then keys entries else keys entries ++ [key] := by
  induction entries with
  | nil => simp [insert, keys]
  | cons entry rest ih =>
    obtain ⟨k, v⟩ := entry
    by_cases h : k = key
    · simp [insert, keys, h]
    · have other : key ≠ k := fun same => h same.symm
      simp only [keys] at ih
      simp only [insert, if_neg h, keys, List.map_cons, List.mem_cons, other, false_or, ih]
      split <;> simp_all

theorem nodup_keys_insert (key : α) (value : β) {entries : List (α × β)}
    (h : (keys entries).Nodup) : (keys (insert key value entries)).Nodup := by
  rw [keys_insert]
  split
  · exact h
  · next fresh => exact List.nodup_append.2 ⟨h, by simp, by
      intro a ha b hb same
      simp only [List.mem_singleton] at hb
      exact fresh (hb ▸ same ▸ ha)⟩

theorem mem_insert {key : α} {value : β} {entries : List (α × β)} {entry : α × β}
    (h : entry ∈ insert key value entries) : entry = (key, value) ∨ entry ∈ entries := by
  induction entries with
  | nil => simpa [insert] using h
  | cons first rest ih =>
    obtain ⟨k, v⟩ := first
    simp only [insert] at h
    split at h
    · rcases List.mem_cons.1 h with h | h
      · exact .inl h
      · exact .inr (List.mem_cons_of_mem _ h)
    · rcases List.mem_cons.1 h with h | h
      · exact .inr (h ▸ List.mem_cons_self)
      · exact (ih h).imp id (List.mem_cons_of_mem _)

theorem insert_fresh {key : α} (value : β) {entries : List (α × β)} (h : key ∉ keys entries) :
    insert key value entries = entries ++ [(key, value)] := by
  induction entries with
  | nil => rfl
  | cons entry rest ih =>
    obtain ⟨k, v⟩ := entry
    simp only [keys, List.map_cons, List.mem_cons, not_or] at h
    simp only [insert, if_neg (Ne.symm h.1), List.cons_append, ih h.2]

end Kaleidoscope.Association
