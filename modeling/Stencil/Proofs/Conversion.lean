import Mathlib.Data.List.Sort
import Stencil.Proofs.Bytes
import Stencil.Proofs.Equality
import Stencil.Value.Json
/-!
# Values through JSON and back

A value that becomes JSON and then a value again comes back with the members of its objects in the
order of their keys, and with nothing else changed, as long as JSON can hold what is in it. What is
lost is lost the first time: the JSON of the value that comes back is the JSON of the value.
-/

namespace Stencil

/-! ## Tables in the order of their keys -/

namespace Table

variable {α β : Type} {t u : Table α}

/-- To change all values keeps the keys. -/
theorem keys_map (f : α → β) (t : Table α) : keys (t.map (Prod.map id f)) = keys t := by
  rw [keys, keys, List.map_map]
  rfl

/-- What is found is the value that has been changed. -/
theorem get?_map (f : α → β) (t : Table α) (key : String) :
    get? (t.map (Prod.map id f)) key = (get? t key).map f := by
  induction t with
  | nil => rfl
  | cons e t ih =>
    obtain ⟨k, v⟩ := e
    rw [List.map_cons, Prod.map_apply, id, get?, get?, ih]
    split <;> rfl

/-- Where an entry goes is decided by keys only, so values may be changed before or after. -/
theorem insertSorted_map (f : α → β) (t : Table α) (key : String) (value : α) :
    insertSorted (t.map (Prod.map id f)) key (f value) =
      (insertSorted t key value).map (Prod.map id f) := by
  induction t with
  | nil => rfl
  | cons e t ih =>
    obtain ⟨k, v⟩ := e
    rw [List.map_cons, Prod.map_apply, id, insertSorted, insertSorted, ih]
    split
    · rfl
    · split <;> rfl

/-- Values are changed before or after a table is sorted. -/
theorem sorted_map (f : α → β) (t : Table α) :
    sorted (t.map (Prod.map id f)) = (sorted t).map (Prod.map id f) := by
  suffices h : ∀ u : Table α, (t.map (Prod.map id f)).foldl (fun t e => insertSorted t e.1 e.2)
      (u.map (Prod.map id f)) =
        (t.foldl (fun t e => insertSorted t e.1 e.2) u).map (Prod.map id f) from h []
  induction t with
  | nil => exact fun u => rfl
  | cons e t ih =>
    intro u
    rw [List.map_cons, List.foldl_cons, List.foldl_cons, ← ih, ← insertSorted_map]
    rfl

/-- To insert an entry changes what is found at its key and nowhere else. -/
theorem get?_insertSorted (t : Table α) (key other : String) (value : α) :
    get? (insertSorted t key value) other = if key = other then some value else get? t other := by
  induction t with
  | nil => rfl
  | cons e t ih =>
    obtain ⟨k, v⟩ := e
    rw [insertSorted]
    split
    · rfl
    · split
      · next heq =>
        subst heq
        rw [get?, get?]
        split <;> rfl
      · next hne =>
        rw [get?, get?, ih]
        split
        · next heq => rw [if_neg (heq ▸ Ne.symm hne)]
        · rfl

/-- Keys that come once are found in the table that is built from them, before what was there. -/
theorem get?_foldl_insertSorted {entries : Table α} (h : (keys entries).Nodup) (t : Table α)
    (key : String) : get? (entries.foldl (fun t e => insertSorted t e.1 e.2) t) key =
      (get? entries key).or (get? t key) := by
  induction entries generalizing t with
  | nil => rfl
  | cons e entries ih =>
    obtain ⟨k, v⟩ := e
    obtain ⟨hhead, htail⟩ := List.nodup_cons.1 h
    rw [List.foldl_cons, ih htail, get?_insertSorted, get?]
    split
    · next heq =>
      subst heq
      cases hk : get? entries k with
      | none => rfl
      | some w => exact absurd (mem_keys_of_get? hk) hhead
    · rfl

/-- Sorting changes the order and not what is found, unless a key comes twice. -/
theorem get?_sorted (h : (keys t).Nodup) (key : String) : get? (sorted t) key = get? t key := by
  rw [sorted, get?_foldl_insertSorted h, get?, Option.or_none]

/-- An entry behind all others goes to the end. -/
theorem insertSorted_of_forall {key : String} (h : ∀ k ∈ keys t, k < key) (value : α) :
    insertSorted t key value = t ++ [(key, value)] := by
  induction t with
  | nil => rfl
  | cons e t ih =>
    obtain ⟨k, v⟩ := e
    obtain ⟨hk, ht⟩ := List.forall_mem_cons.1 h
    rw [insertSorted, if_neg (lt_asymm hk), if_neg (ne_of_lt hk), ih ht]
    rfl

/-- Entries that come in order are not moved. -/
theorem foldl_insertSorted_of_increasing {entries : Table α}
    (h : (keys (t ++ entries)).Pairwise (· < ·)) :
    entries.foldl (fun t e => insertSorted t e.1 e.2) t = t ++ entries := by
  induction entries generalizing t with
  | nil => rw [List.foldl_nil, List.append_nil]
  | cons e entries ih =>
    rw [List.append_cons] at h ⊢
    have hprefix : (keys (t ++ [e])).Pairwise (· < ·) := by
      rw [keys, List.map_append] at h
      exact (List.pairwise_append.1 h).1
    rw [keys, List.map_append, List.pairwise_append] at hprefix
    rw [List.foldl_cons, insertSorted_of_forall fun k hk => hprefix.2.2 k hk e.1 (by simp), ih h]

/-- A table whose keys increase is sorted. -/
theorem sorted_of_increasing (h : (keys t).Pairwise (· < ·)) : sorted t = t :=
  foldl_insertSorted_of_increasing (t := []) h

/-- A table that is sorted has its keys in strict order, and so none of them twice. -/
theorem increasing_sorted (t : Table α) : (keys (sorted t)).Pairwise (· < ·) :=
  increasing_foldl List.Pairwise.nil

/-- To sort again changes nothing. -/
theorem sorted_sorted (t : Table α) : sorted (sorted t) = sorted t :=
  sorted_of_increasing (increasing_sorted t)

theorem get?_eq_none {key : String} (h : key ∉ keys t) : get? t key = none :=
  Option.eq_none_iff_forall_ne_some.2 fun _ hget => h (mem_keys_of_get? hget)

/-- A table is known by its keys and what is found under them. -/
theorem eq_of_keys (hkeys : keys t = keys u) (hnodup : (keys t).Nodup)
    (h : ∀ k, get? t k = get? u k) : t = u := by
  induction t generalizing u with
  | nil =>
    cases u with
    | nil => rfl
    | cons e u => cases hkeys
  | cons e t ih =>
    cases u with
    | nil => cases hkeys
    | cons e' u =>
      obtain ⟨k, v⟩ := e
      obtain ⟨k', v'⟩ := e'
      obtain ⟨rfl, htail⟩ := List.cons.inj hkeys
      obtain ⟨hhead, hnodup⟩ := List.nodup_cons.1 hnodup
      have hvalue := h k
      simp only [get?, if_true, Option.some_inj] at hvalue
      rw [hvalue, ih htail hnodup fun key => ?_]
      by_cases hk : k = key
      · subst hk
        rw [get?_eq_none hhead, get?_eq_none fun hmem => hhead (htail ▸ hmem)]
      · simpa [get?, hk] using h key

end Table

namespace Json

theorem sortedItems_eq_map (items : List Json) : sortedItems items = items.map sorted := by
  induction items with
  | nil => rfl
  | cons j js ih => rw [sortedItems, ih, List.map_cons]

theorem sortedMembers_eq_map (members : Table Json) :
    sortedMembers members = members.map (Prod.map id sorted) := by
  induction members with
  | nil => rfl
  | cons e es ih => rw [sortedMembers, ih, List.map_cons, Prod.map_apply, id]

end Json

namespace Value

variable {u v w : Value}

/-! ## What JSON can hold -/

/-- A value without functions and without floating-point numbers that are not finite, in which no
object has a key twice. -/
inductive Plain : Value → Prop
  | null : Plain .null
  | bool (b : Bool) : Plain (.bool b)
  | int (n : Int64) : Plain (.number (.int n))
  | float {x : Float} (h : x.isFinite = true) : Plain (.number (.float x))
  | string (s : String) : Plain (.string s)
  | array {items : List Value} (h : ∀ v ∈ items, Plain v) : Plain (.array items)
  | object {members : Table Value} (hkeys : (Table.keys members).Nodup)
      (h : ∀ k v, Table.get? members k = some v → Plain v) : Plain (.object members)

/-- An object is told by its entries as well as by what is found at its keys. -/
theorem plain_object {members : Table Value} (hkeys : (Table.keys members).Nodup)
    (h : ∀ e ∈ members, Plain e.2) : Plain (.object members) :=
  .object hkeys fun _ _ hget => h _ (Table.mem_of_get? hget)

/-- The second value is the first one with the members of every object in the order of the bytes of
their keys. -/
inductive Arranged : Value → Value → Prop
  | null : Arranged .null .null
  | bool (b : Bool) : Arranged (.bool b) (.bool b)
  | number (n : Number) : Arranged (.number n) (.number n)
  | string (s : String) : Arranged (.string s) (.string s)
  | array {as bs : List Value} (hlen : as.length = bs.length)
      (h : ∀ (i : Nat) (a b : Value), as[i]? = some a → bs[i]? = some b → Arranged a b) :
      Arranged (.array as) (.array bs)
  | object {as bs : Table Value} (hkeys : (Table.keys bs).Perm (Table.keys as))
      (hbytes : (Table.keys bs).Pairwise fun k l => Text.bytes k.toList < Text.bytes l.toList)
      (h : ∀ k a b, Table.get? as k = some a → Table.get? bs k = some b → Arranged a b) :
      Arranged (.object as) (.object bs)

/-- Keys are ordered by their characters, and that is the order of their bytes. -/
theorem increasing_iff_bytes {ks : List String} :
    ks.Pairwise (fun k l => Text.bytes k.toList < Text.bytes l.toList) ↔ ks.Pairwise (· < ·) :=
  List.Pairwise.iff fun _ _ => Text.bytes_lt_iff.trans String.lt_iff_toList_lt.symm

/-- There is only one way to arrange a value. -/
theorem Arranged.unique (h : Arranged v u) (h' : Arranged v w) : u = w := by
  induction h generalizing w with
  | array hlen _ ih =>
    cases h' with
    | array hlen' h' =>
      refine congrArg _ (List.ext_getElem (hlen.symm.trans hlen') fun i hi hi' => ?_)
      have hitem := List.getElem?_eq_getElem (hlen.symm ▸ hi)
      exact ih i _ _ hitem (List.getElem?_eq_getElem hi)
        (h' i _ _ hitem (List.getElem?_eq_getElem hi'))
  | @object as bs hkeys hbytes _ ih =>
    cases h' with
    | object hkeys' hbytes' h' =>
      rw [increasing_iff_bytes] at hbytes hbytes'
      have hsame := (hkeys.trans hkeys'.symm).eq_of_pairwise' hbytes hbytes'
      have hnodup : (Table.keys bs).Nodup := hbytes.imp fun hlt => ne_of_lt hlt
      refine congrArg _ (Table.eq_of_keys hsame hnodup fun k => ?_)
      by_cases hk : k ∈ Table.keys bs
      · obtain ⟨a, ha⟩ := (mem_keys_iff (hkeys.nodup hnodup)).1 (hkeys.subset hk)
        obtain ⟨b, hb⟩ := (mem_keys_iff hnodup).1 hk
        obtain ⟨c, hc⟩ := (mem_keys_iff (hsame ▸ hnodup)).1 (hsame ▸ hk)
        rw [hb, hc, ih k a b ha hb (h' k a c ha hc)]
      · rw [Table.get?_eq_none hk, Table.get?_eq_none fun hmem => hk (hsame ▸ hmem)]
  | _ => cases h'; rfl

/-! ## Conversion, part by part -/

theorem jsonItems_eq_map (items : List Value) : jsonItems items = items.map json := by
  induction items with
  | nil => rfl
  | cons v vs ih => rw [jsonItems, ih, List.map_cons]

theorem jsonMembers_eq_map (members : Table Value) :
    jsonMembers members = members.map (Prod.map id json) := by
  induction members with
  | nil => rfl
  | cons e es ih => rw [jsonMembers, ih, List.map_cons, Prod.map_apply, id]

theorem ofJsonItems_eq_map (items : List Json) : ofJsonItems items = items.map ofJson := by
  induction items with
  | nil => rfl
  | cons j js ih => rw [ofJsonItems, ih, List.map_cons]

theorem ofJsonMembers_eq_map (members : Table Json) :
    ofJsonMembers members = members.map (Prod.map id ofJson) := by
  induction members with
  | nil => rfl
  | cons e es ih => rw [ofJsonMembers, ih, List.map_cons, Prod.map_apply, id]

theorem toJson_array (items : List Value) :
    toJson (.array items) = .array (items.map toJson) := by
  rw [toJson, json, Json.sorted, Json.sortedItems_eq_map, jsonItems_eq_map, List.map_map]
  rfl

/-- An object is sorted when it is put into JSON. -/
theorem toJson_object (members : Table Value) :
    toJson (.object members) = .object (Table.sorted (members.map (Prod.map id toJson))) := by
  rw [toJson, json, Json.sorted, Json.sortedMembers_eq_map, jsonMembers_eq_map, List.map_map]
  rfl

theorem ofJson_array (items : List Json) : ofJson (.array items) = .array (items.map ofJson) := by
  rw [ofJson, ofJsonItems_eq_map]

/-- An object is taken out of JSON in the order in which it stands there. -/
theorem ofJson_object (members : Table Json) :
    ofJson (.object members) = .object (members.map (Prod.map id ofJson)) := by
  rw [ofJson, ofJsonMembers_eq_map]

theorem ofJson_toJson_array (items : List Value) :
    ofJson (toJson (.array items)) = .array (items.map fun v => ofJson (toJson v)) := by
  rw [toJson_array, ofJson_array, List.map_map]
  rfl

/-- There and back, an object is sorted once. -/
theorem ofJson_toJson_object (members : Table Value) : ofJson (toJson (.object members)) =
    .object (Table.sorted (members.map (Prod.map id fun v => ofJson (toJson v)))) := by
  rw [toJson_object, ofJson_object, ← Table.sorted_map, List.map_map]
  rfl

/-- A finite number is taken out of JSON as it was put in. -/
theorem ofJson_toJson_float {x : Float} (h : x.isFinite = true) :
    ofJson (toJson (.number (.float x))) = .number (.float x) := by
  rw [toJson, json, numberJson, if_pos h, Json.sorted, ofJson]
  all_goals exact nofun

/-- A number that JSON cannot hold is `null` from then on. -/
theorem toJson_ofJson_toJson_number (n : Number) :
    toJson (ofJson (toJson (.number n))) = toJson (.number n) := by
  cases n with
  | int n => rfl
  | float x =>
    by_cases h : x.isFinite = true
    · rw [ofJson_toJson_float h]
    · have hnull : toJson (.number (.float x)) = .null := by
        rw [toJson, json, numberJson, if_neg h]
        rfl
      rw [hnull]
      rfl

/-! ## There and back -/

mutual

/-- What is lost is lost the first time. -/
theorem toJson_ofJson_toJson : ∀ v : Value, toJson (ofJson (toJson v)) = toJson v
  | .null => rfl
  | .bool _ => rfl
  | .number n => toJson_ofJson_toJson_number n
  | .string _ => rfl
  | .array items => by
    rw [ofJson_toJson_array, toJson_array, toJson_array, List.map_map]
    exact congrArg _ (List.map_congr_left (toJson_ofJson_toJson_items items))
  | .object members => by
    rw [ofJson_toJson_object, toJson_object, toJson_object, ← Table.sorted_map, Table.sorted_sorted,
      List.map_map]
    refine congrArg _ (congrArg _ (List.map_congr_left fun e he => ?_))
    exact Prod.ext rfl (toJson_ofJson_toJson_members members e he)
  | .function _ => rfl

theorem toJson_ofJson_toJson_items :
    ∀ items : List Value, ∀ v ∈ items, toJson (ofJson (toJson v)) = toJson v
  | [] => nofun
  | v :: vs => List.forall_mem_cons.2 ⟨toJson_ofJson_toJson v, toJson_ofJson_toJson_items vs⟩

theorem toJson_ofJson_toJson_members :
    ∀ members : Table Value, ∀ e ∈ members, toJson (ofJson (toJson e.2)) = toJson e.2
  | [] => nofun
  | (_, v) :: es => List.forall_mem_cons.2 ⟨toJson_ofJson_toJson v, toJson_ofJson_toJson_members es⟩

end

/-- What comes back is the value with its members in order. -/
theorem arranged_ofJson_toJson (h : Plain v) : Arranged v (ofJson (toJson v)) := by
  induction h with
  | null => exact .null
  | bool b => exact .bool b
  | int n => exact .number _
  | float h =>
    rw [ofJson_toJson_float h]
    exact .number _
  | string s => exact .string s
  | @array items _ ih =>
    rw [ofJson_toJson_array]
    refine .array (List.length_map _).symm fun i a b ha hb => ?_
    rw [List.getElem?_map, ha, Option.map_some, Option.some_inj] at hb
    exact hb ▸ ih a (List.mem_of_getElem? ha)
  | @object members hkeys _ ih =>
    rw [ofJson_toJson_object]
    have hmap := Table.keys_map (fun v => ofJson (toJson v)) members
    refine .object ?_ (increasing_iff_bytes.2 (Table.increasing_sorted _)) fun k a b ha hb => ?_
    · exact hmap ▸ Table.keys_sorted_perm (hmap.symm ▸ hkeys)
    · rw [Table.get?_sorted (hmap.symm ▸ hkeys), Table.get?_map, ha, Option.map_some,
        Option.some_inj] at hb
      exact hb ▸ ih k a ha

/-- **A value comes back from JSON as it was, with its members in order.** What JSON can hold comes
back with the members of every object in the order of the bytes of their keys, and otherwise
unchanged down to every leaf. And whatever the value is, what comes back has the same JSON. -/
theorem ofJson_toJson (v : Value) :
    (Plain v → ∀ w, Arranged v w ↔ w = ofJson (toJson v)) ∧
      toJson (ofJson (toJson v)) = toJson v := by
  refine ⟨fun h w => ⟨fun hw => hw.unique (arranged_ofJson_toJson h), ?_⟩, toJson_ofJson_toJson v⟩
  rintro rfl
  exact arranged_ofJson_toJson h

/-- An object in an object, with keys outside of ASCII that are out of order. -/
theorem ofJson_toJson_nested :
    Plain (.object [("é", .number (.float 2.5)),
      ("z", .array [.object [("b", .null), ("a", .number (.int 2))]])]) ∧
    Arranged
      (.object [("é", .number (.float 2.5)),
        ("z", .array [.object [("b", .null), ("a", .number (.int 2))]])])
      (.object [("z", .array [.object [("a", .number (.int 2)), ("b", .null)]]),
        ("é", .number (.float 2.5))]) := by
  have hinner : Plain (.object [("b", .null), ("a", .number (.int 2))]) := by
    refine plain_object (by decide) (List.forall_mem_cons.2 ⟨.null, ?_⟩)
    exact List.forall_mem_singleton.2 (.int 2)
  have hplain : Plain (.object [("é", .number (.float 2.5)),
      ("z", .array [.object [("b", .null), ("a", .number (.int 2))]])]) := by
    refine plain_object (by decide) (List.forall_mem_cons.2 ⟨.float (by decide +kernel), ?_⟩)
    exact List.forall_mem_singleton.2 (.array (List.forall_mem_singleton.2 hinner))
  refine ⟨hplain, ((ofJson_toJson _).1 hplain _).2 ?_⟩
  rw [ofJson_toJson_object]
  rfl

end Value

end Stencil
