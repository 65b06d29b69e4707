/-!
Lists of entries under string keys, in the order in which the keys came first. A later value for a
key replaces the earlier one and keeps its place.
-/
namespace TypeSchema.Keyed

variable {α : Type}

def keys (entries : List (String × α)) : List String := entries.map Prod.fst

def insert (key : String) (value : α) : List (String × α) → List (String × α)
  | [] => [(key, value)]
  | (k, v) :: rest => if k = key then (k, value) :: rest else (k, v) :: insert key value rest

def ofList (entries : List (String × α)) : List (String × α) :=
  entries.foldl (fun done e => insert e.1 e.2 done) []

theorem insert_of_not_mem {key : String} {value : α} {entries : List (String × α)}
    (h : key ∉ keys entries) : insert key value entries = entries ++ [(key, value)] := by
  induction entries with
  | nil => rfl
  | cons e rest ih =>
    have hk : key ≠ e.1 ∧ key ∉ keys rest := by simpa [keys] using h
    simp [insert, Ne.symm hk.1, ih hk.2]

private theorem foldl_insert_of_nodup (entries done : List (String × α))
    (h : (keys (done ++ entries)).Nodup) :
    entries.foldl (fun done e => insert e.1 e.2 done) done = done ++ entries := by
  induction entries generalizing done with
  | nil => simp
  | cons e rest ih =>
    have hk : e.1 ∉ keys done := by
      intro hm
      simp only [keys, List.map_append, List.map_cons] at h hm
      exact (List.nodup_append.mp h).2.2 _ hm _ (List.mem_cons_self ..) rfl
    rw [List.foldl_cons, insert_of_not_mem hk, ih _ (by simpa using h)]
    simp

/-- Entries under distinct keys are kept as they are. -/
theorem ofList_of_nodup {entries : List (String × α)} (h : (keys entries).Nodup) :
    ofList entries = entries := by
  simpa [ofList] using foldl_insert_of_nodup entries [] (by simpa using h)

end TypeSchema.Keyed
