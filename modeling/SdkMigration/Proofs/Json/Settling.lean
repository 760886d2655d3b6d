import SdkMigration.Json.Value

/-!
# Values with distinct keys

A value that has been settled is made of the settled values of what it was made of
(`Json.settled_eq_object`, `Json.settled_eq_array`), and settling it again changes nothing
(`Json.settled_settled`).
-/

namespace SdkMigration.Json

/-! ## Entries with distinct keys -/

theorem mem_put {key : String} {value : Json} {entries : List (String × Json)}
    {entry : String × Json} (h : entry ∈ put key value entries) :
    entry = (key, value) ∨ entry ∈ entries := by
  induction entries with
  | nil => exact Or.inl (List.mem_singleton.mp h)
  | cons first rest ih =>
    unfold put at h
    split at h
    · exact (List.mem_cons.mp h).imp_right (List.mem_cons_of_mem first)
    · rcases List.mem_cons.mp h with rfl | hrest
      · exact Or.inr (.head rest)
      · exact (ih hrest).imp_right (List.mem_cons_of_mem first)

theorem mem_foldl_put {entries known : List (String × Json)} {entry : String × Json}
    (h : entry ∈ entries.foldl (fun found (key, value) => put key value found) known) :
    entry ∈ known ∨ entry ∈ entries := by
  induction entries generalizing known with
  | nil => exact Or.inl h
  | cons first rest ih =>
    rcases ih h with hput | hrest
    · rcases mem_put hput with rfl | hknown
      · exact Or.inr (.head rest)
      · exact Or.inl hknown
    · exact Or.inr (.tail first hrest)

/-- Making keys distinct adds no entry. -/
theorem mem_of_mem_distinct {entries : List (String × Json)} {entry : String × Json}
    (h : entry ∈ distinct entries) : entry ∈ entries :=
  (mem_foldl_put h).resolve_left List.not_mem_nil

theorem put_of_notMem {key : String} {entries : List (String × Json)}
    (h : key ∉ entries.map Prod.fst) (value : Json) :
    put key value entries = entries ++ [(key, value)] := by
  induction entries with
  | nil => rfl
  | cons first rest ih =>
    rw [List.map_cons, List.mem_cons, not_or] at h
    rw [put, if_neg (Ne.symm h.1), ih h.2, List.cons_append]

theorem map_fst_put_of_mem {key : String} {entries : List (String × Json)}
    (h : key ∈ entries.map Prod.fst) (value : Json) :
    (put key value entries).map Prod.fst = entries.map Prod.fst := by
  induction entries with
  | nil => cases h
  | cons first rest ih =>
    rw [put]
    split
    · next heq => rw [List.map_cons, List.map_cons, heq]
    · next hne =>
      have hrest : key ∈ rest.map Prod.fst :=
        (List.mem_cons.mp h).resolve_left fun heq => hne heq.symm
      rw [List.map_cons, List.map_cons, ih hrest]

theorem nodup_put {entries : List (String × Json)} (h : (entries.map Prod.fst).Nodup)
    (key : String) (value : Json) : ((put key value entries).map Prod.fst).Nodup := by
  by_cases hkey : key ∈ entries.map Prod.fst
  · rwa [map_fst_put_of_mem hkey]
  · rw [put_of_notMem hkey, List.map_append, List.nodup_append]
    refine ⟨h, by simp, fun found hfound other hother => ?_⟩
    rintro rfl
    obtain rfl : found = key := List.mem_singleton.mp hother
    exact hkey hfound

/-- No key is left twice. -/
theorem nodup_distinct (entries : List (String × Json)) :
    ((distinct entries).map Prod.fst).Nodup := by
  have hfold : ∀ (rest known : List (String × Json)), (known.map Prod.fst).Nodup →
      ((rest.foldl (fun found (key, value) => put key value found) known).map Prod.fst).Nodup := by
    intro rest
    induction rest with
    | nil => exact fun known hknown => hknown
    | cons first rest ih => exact fun known hknown => ih _ (nodup_put hknown first.1 first.2)
  exact hfold entries [] List.nodup_nil

/-- Keys that are distinct stay as they are. -/
theorem distinct_of_nodup {entries : List (String × Json)} (h : (entries.map Prod.fst).Nodup) :
    distinct entries = entries := by
  have hfold : ∀ (rest known : List (String × Json)), ((known ++ rest).map Prod.fst).Nodup →
      rest.foldl (fun found (key, value) => put key value found) known = known ++ rest := by
    intro rest
    induction rest with
    | nil => exact fun known _ => (List.append_nil known).symm
    | cons first rest ih =>
      intro known hknown
      have hfresh : first.1 ∉ known.map Prod.fst := by
        intro hmem
        rw [List.map_append, List.nodup_append] at hknown
        exact hknown.2.2 _ hmem _ (List.mem_map_of_mem (.head rest)) rfl
      rw [List.foldl_cons]
      simp only [put_of_notMem hfresh]
      rw [ih (known ++ [first]) (by rwa [List.append_assoc]), List.append_assoc]
      rfl
  exact hfold entries [] h

/-! ## What a settled value is made of -/

theorem mem_of_mem_entriesSettled {depth : Nat} {values known : List (String × Json)}
    (h : entriesSettled depth values = some known) {entry : String × Json} (hmem : entry ∈ known) :
    ∃ value, (entry.1, value) ∈ values ∧ value.settled depth = some entry.2 := by
  induction values generalizing known with
  | nil =>
    obtain rfl := Option.some.inj h
    cases hmem
  | cons first rest ih =>
    unfold entriesSettled at h
    split at h
    · next value others hvalue hothers =>
      obtain rfl := Option.some.inj h
      rcases List.mem_cons.mp hmem with rfl | hrest
      · exact ⟨first.2, .head rest, hvalue⟩
      · obtain ⟨value, hvalue, hsettled⟩ := ih hothers hrest
        exact ⟨value, .tail first hvalue, hsettled⟩
    · cases h

theorem mem_of_mem_allSettled {depth : Nat} {values known : List Json}
    (h : allSettled depth values = some known) {item : Json} (hmem : item ∈ known) :
    ∃ value ∈ values, value.settled depth = some item := by
  induction values generalizing known with
  | nil =>
    obtain rfl := Option.some.inj h
    cases hmem
  | cons first rest ih =>
    unfold allSettled at h
    split at h
    · next value others hvalue hothers =>
      obtain rfl := Option.some.inj h
      rcases List.mem_cons.mp hmem with rfl | hrest
      · exact ⟨first, .head rest, hvalue⟩
      · obtain ⟨value, hvalue, hsettled⟩ := ih hothers hrest
        exact ⟨value, .tail first hvalue, hsettled⟩
    · cases h

/-- A settled object has distinct keys, each with the settled value of one of its entries. -/
theorem settled_object {depth : Nat} {values : List (String × Json)} {found : Json}
    (h : (Json.object values).settled depth = some found) :
    ∃ below entries, depth = below + 1 ∧ found = .object entries ∧
      (entries.map Prod.fst).Nodup ∧ ∀ entry ∈ entries, ∃ value,
        (entry.1, value) ∈ values ∧ value.settled below = some entry.2 := by
  unfold settled at h
  split at h
  · cases h
  · next below =>
    split at h
    · next known hknown =>
      cases h
      exact ⟨below, distinct known, rfl, rfl, nodup_distinct known, fun entry hentry =>
        mem_of_mem_entriesSettled hknown (mem_of_mem_distinct hentry)⟩
    · cases h

/-- A settled array has the settled values of its items. -/
theorem settled_array {depth : Nat} {values : List Json} {found : Json}
    (h : (Json.array values).settled depth = some found) :
    ∃ below items, depth = below + 1 ∧ found = .array items ∧
      ∀ item ∈ items, ∃ value ∈ values, value.settled below = some item := by
  unfold settled at h
  split at h
  · cases h
  · next below =>
    split at h
    · next known hknown =>
      cases h
      exact ⟨below, known, rfl, rfl, fun item hitem => mem_of_mem_allSettled hknown hitem⟩
    · cases h

/-- An entry of a settled object is the settled value of one of its entries. -/
theorem settled_eq_object {depth : Nat} {json : Json} {entries : List (String × Json)}
    (h : json.settled depth = some (.object entries)) :
    ∃ values, json = .object values ∧ ∀ entry ∈ entries, ∃ below value,
      (entry.1, value) ∈ values ∧ value.settled below = some entry.2 := by
  cases json with
  | object values =>
    obtain ⟨below, found, -, hfound, -, hentries⟩ := settled_object h
    cases hfound
    exact ⟨values, rfl, fun entry hentry => ⟨below, hentries entry hentry⟩⟩
  | array items =>
    obtain ⟨below, found, -, hfound, -⟩ := settled_array h
    cases hfound
  | null => cases h
  | meaningless => cases h
  | integer value => cases h
  | double value => cases h
  | bool value => cases h
  | string value => cases h

/-! ## Settling a settled value -/

theorem entriesSettled_eq_self {depth : Nat} {entries : List (String × Json)}
    (h : ∀ entry ∈ entries, entry.2.settled depth = some entry.2) :
    entriesSettled depth entries = some entries := by
  induction entries with
  | nil => rfl
  | cons first rest ih =>
    rw [entriesSettled, h first (.head rest), ih fun entry hentry => h entry (.tail first hentry)]

theorem allSettled_eq_self {depth : Nat} {items : List Json}
    (h : ∀ item ∈ items, item.settled depth = some item) :
    allSettled depth items = some items := by
  induction items with
  | nil => rfl
  | cons first rest ih =>
    rw [allSettled, h first (.head rest), ih fun item hitem => h item (.tail first hitem)]

/-- An object with distinct keys and settled values is settled. -/
theorem settled_object_eq_self {depth : Nat} {entries : List (String × Json)}
    (hkeys : (entries.map Prod.fst).Nodup)
    (h : ∀ entry ∈ entries, entry.2.settled depth = some entry.2) :
    (Json.object entries).settled (depth + 1) = some (.object entries) := by
  rw [settled, entriesSettled_eq_self h]
  simp only [distinct_of_nodup hkeys]

/-- What has been settled stays as it is. -/
theorem settled_settled {depth : Nat} {json found : Json} (h : json.settled depth = some found) :
    found.settled depth = some found := by
  induction depth using Nat.strongRecOn generalizing json found with
  | ind depth ih =>
    cases json with
    | object values =>
      obtain ⟨below, entries, rfl, rfl, hkeys, hentries⟩ := settled_object h
      refine settled_object_eq_self hkeys fun entry hentry => ?_
      obtain ⟨value, -, hvalue⟩ := hentries entry hentry
      exact ih below (Nat.lt_succ_self below) hvalue
    | array values =>
      obtain ⟨below, items, rfl, rfl, hitems⟩ := settled_array h
      rw [settled, allSettled_eq_self fun item hitem => ?_]
      obtain ⟨value, -, hvalue⟩ := hitems item hitem
      exact ih below (Nat.lt_succ_self below) hvalue
    | meaningless => cases h
    | null => cases h; rfl
    | bool value => cases h; rfl
    | integer value => cases h; rfl
    | double value => cases h; rfl
    | string value => cases h; rfl

/-- A settled object keeps its keys and the settled values under them. -/
theorem settled_object_self {depth : Nat} {json : Json} {entries : List (String × Json)}
    (h : json.settled depth = some (.object entries)) :
    ∃ below, depth = below + 1 ∧ (entries.map Prod.fst).Nodup ∧
      ∀ entry ∈ entries, entry.2.settled below = some entry.2 := by
  obtain ⟨below, found, hdepth, hfound, hkeys, hentries⟩ := settled_object (settled_settled h)
  cases hfound
  refine ⟨below, hdepth, hkeys, fun entry hentry => ?_⟩
  obtain ⟨value, -, hvalue⟩ := hentries entry hentry
  exact settled_settled hvalue

end SdkMigration.Json
