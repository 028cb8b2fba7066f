import CaveMap.Proofs.Value
import CaveMap.Proofs.Yaml.Composing

namespace CaveMap

open Yaml Yaml.Written

namespace Value

theorem insertEntry_of_notMem {key : String} {value : Value} {entries : List (String × Value)}
    (h : key ∉ entries.map (·.1)) :
    insertEntry (text key) value (textEntries entries) = textEntries (entries ++ [(key, value)]) := by
  induction entries with
  | nil => rfl
  | cons entry rest ih =>
    rw [List.map_cons, List.mem_cons, not_or] at h
    have hne : ¬ (text entry.1).equals (text key) := by simpa using fun he => h.1 he.symm
    have hcons : textEntries (entry :: rest) = (text entry.1, entry.2) :: textEntries rest := rfl
    rw [hcons, insertEntry, if_neg hne, ih h.2]
    rfl

theorem mapOf_textEntries {entries : List (String × Value)} (h : (entries.map (·.1)).Nodup) :
    mapOf (textEntries entries) = map (textEntries entries) := by
  have hfold : ∀ rest front : List (String × Value), ((front ++ rest).map (·.1)).Nodup →
      (textEntries rest).foldl (fun kept x => insertEntry x.1 x.2 kept) (textEntries front) =
        textEntries (front ++ rest) := by
    intro rest
    induction rest with
    | nil =>
      intro front _
      rw [List.append_nil]
      rfl
    | cons entry rest ih =>
      intro front hnodup
      have hnew : entry.1 ∉ front.map (·.1) := by
        rw [List.map_append, List.map_cons, List.nodup_middle, List.nodup_cons] at hnodup
        exact fun hin => hnodup.1 (List.mem_append_left _ hin)
      have hcons : textEntries (entry :: rest) = (text entry.1, entry.2) :: textEntries rest := rfl
      have hassoc : front ++ entry :: rest = front ++ [entry] ++ rest := by simp
      rw [hcons, List.foldl_cons, insertEntry_of_notMem hnew, hassoc]
      exact ih (front ++ [entry]) (hassoc ▸ hnodup)
  exact congrArg map (hfold entries [] h)

end Value

namespace Yaml

namespace Loaded

theorem gather_cons {α : Type} {x : Loaded α} {a : α} {rest : List (Loaded α)} {more : List α} (hx : x = .ok a)
    (hr : gather rest = .ok more) : gather (x :: rest) = .ok (a :: more) := by
  unfold gather
  rw [hx, hr]
  rfl

end Loaded

namespace Node

/-- A value has itself for the value of its node. -/
def Means (v : Value) : Prop := ∀ fuel, 2 * (nodeOf v).depth + 1 ≤ fuel → (nodeOf v).value fuel = .ok v

theorem value_sequence (fuel : Nat) (nodes : List Node) : (sequence Tag.sequence nodes).value (fuel + 2) =
    (Loaded.gather (nodes.map (value fuel))).inside.map .list := by
  have htag : (sequence Tag.sequence nodes).tag = Tag.sequence := rfl
  rw [value, htag]
  rw [if_neg (by decide), if_neg (by decide), if_neg (by decide), if_neg (by decide), if_neg (by decide),
    if_neg (by decide), if_neg (by decide), if_pos rfl, items]

theorem value_mapping (fuel : Nat) (nodes : List (Node × Node)) : (mapping Tag.mapping nodes).value (fuel + 1) =
    (entries fuel (mapping Tag.mapping nodes)).inside.map Value.mapOf := by
  have htag : (mapping Tag.mapping nodes).tag = Tag.mapping := rfl
  rw [value, htag]
  rw [if_neg (by decide), if_neg (by decide), if_neg (by decide), if_neg (by decide), if_neg (by decide),
    if_neg (by decide), if_neg (by decide), if_neg (by decide), if_pos rfl]

theorem gather_nodes {fuel : Nat} {items : List Value} (hmeans : ∀ item ∈ items, Means item)
    (hf : 2 * depthOfAll (nodesOf items) + 1 ≤ fuel) :
    Loaded.gather ((nodesOf items).map (value fuel)) = .ok items := by
  induction items with
  | nil => rfl
  | cons item rest ih =>
    have hdepth : (nodesOf (item :: rest)) = nodeOf item :: nodesOf rest := by rw [nodesOf]
    rw [hdepth, depthOfAll] at hf
    rw [hdepth, List.map_cons]
    exact Loaded.gather_cons (hmeans item List.mem_cons_self fuel (by omega))
      (ih (fun other hin => hmeans other (List.mem_cons_of_mem _ hin)) (by omega))

theorem entryNodes_textEntries (entries : List (String × Value)) :
    entryNodes (textEntries entries) = entries.map fun entry => (.scalar Tag.text entry.1, nodeOf entry.2) := by
  induction entries with
  | nil => rfl
  | cons entry rest ih =>
    have hcons : textEntries (entry :: rest) = (.text entry.1, entry.2) :: textEntries rest := rfl
    rw [hcons, entryNodes, ih]
    rfl

theorem flatEntries_textEntries (fuel : Nat) (entries : List (String × Value)) :
    (mapping Tag.mapping (entryNodes (textEntries entries))).flatEntries (fuel + 1) =
      some (entryNodes (textEntries entries)) := by
  have htag : ∀ entry ∈ entryNodes (textEntries entries), entry.1.tag = Tag.text := by
    intro entry hin
    rw [entryNodes_textEntries] at hin
    obtain ⟨_, -, rfl⟩ := List.mem_map.1 hin
    rfl
  have hmerge : ∀ entry ∈ entryNodes (textEntries entries), ¬ entry.1.tag = Tag.merge := by
    intro entry hin
    rw [htag entry hin]
    decide
  have hvalue : ∀ entry ∈ entryNodes (textEntries entries), ¬ entry.1.tag = Tag.value := by
    intro entry hin
    rw [htag entry hin]
    decide
  have hnone : (entryNodes (textEntries entries)).filter (fun x => decide (x.1.tag = Tag.merge)) = [] :=
    List.filter_eq_nil_iff.2 fun entry hin => by simpa using hmerge entry hin
  have hall : (entryNodes (textEntries entries)).filter (fun x => !decide (x.1.tag = Tag.merge)) =
      entryNodes (textEntries entries) :=
    List.filter_eq_self.2 fun entry hin => by simpa using hmerge entry hin
  have hself : (entryNodes (textEntries entries)).map
      (fun x => (if x.1.tag = Tag.value then x.1.retag Tag.text else x.1, x.2)) = entryNodes (textEntries entries) := by
    refine (List.map_congr_left fun entry hin => ?_).trans (List.map_id _)
    rw [if_neg (hvalue entry hin)]
    rfl
  unfold flatEntries
  simp only [hnone, hall, hself, List.mapM_nil]
  rfl

theorem checkedKey_text (s : String) (key : Loaded Value) : checkedKey (.scalar Tag.text s) key = key := by
  have htag : (Node.scalar Tag.text s).isCollection = false := by
    have hnone : [Tag.sequence, Tag.mapping, Tag.set, Tag.orderedMapping, Tag.pairs].contains Tag.text = false := by
      decide
    exact hnone
  rw [checkedKey, htag, if_neg Bool.false_ne_true]

theorem value_text (s : String) (fuel : Nat) : (Node.scalar Tag.text s).value (fuel + 1) = .ok (.text s) := by
  have htag : (Node.scalar Tag.text s).tag = Tag.text := rfl
  rw [value, htag]
  rw [if_neg (by decide), if_neg (by decide), if_neg (by decide), if_neg (by decide), if_neg (by decide),
    if_neg (by decide), if_pos rfl]
  rfl

theorem gather_entries {fuel : Nat} {entries : List (String × Value)} (hmeans : ∀ entry ∈ entries, Means entry.2)
    (hf : 2 * depthOfEntries (entryNodes (textEntries entries)) + 1 ≤ fuel) :
    Loaded.gather ((entryNodes (textEntries entries)).flatMap fun x =>
      [checkedKey x.1 (value fuel x.1), value fuel x.2]) =
        .ok (entries.flatMap fun entry => [.text entry.1, entry.2]) := by
  induction entries with
  | nil => rfl
  | cons entry rest ih =>
    have hnodes : entryNodes (textEntries (entry :: rest)) =
        (.scalar Tag.text entry.1, nodeOf entry.2) :: entryNodes (textEntries rest) := rfl
    obtain ⟨fuel, rfl⟩ : ∃ f, fuel = f + 1 := ⟨fuel - 1, by omega⟩
    rw [hnodes, depthOfEntries] at hf
    rw [hnodes, List.flatMap_cons, List.flatMap_cons, checkedKey_text]
    exact Loaded.gather_cons (value_text entry.1 fuel)
      (Loaded.gather_cons (hmeans entry List.mem_cons_self (fuel + 1) (by omega))
        (ih (fun other hin => hmeans other (List.mem_cons_of_mem _ hin)) (by omega)))

theorem pairUp_flatMap (entries : List (String × Value)) :
    pairUp (entries.flatMap fun entry => [.text entry.1, entry.2]) = textEntries entries := by
  induction entries with
  | nil => rfl
  | cons entry rest ih =>
    rw [List.flatMap_cons, List.cons_append, List.cons_append, List.nil_append, pairUp, ih]
    rfl

theorem means_mapping {entries : List (String × Value)} (hnodup : (entries.map (·.1)).Nodup)
    (hmeans : ∀ entry ∈ entries, Means entry.2) : Means (.map (textEntries entries)) := by
  intro fuel hf
  have hnode : nodeOf (.map (textEntries entries)) = .mapping Tag.mapping (entryNodes (textEntries entries)) := by
    rw [nodeOf]
  rw [hnode, depth] at hf
  obtain ⟨fuel, rfl⟩ : ∃ f, fuel = f + 2 := ⟨fuel - 2, by omega⟩
  have hentries : Node.entries (fuel + 1) (.mapping Tag.mapping (entryNodes (textEntries entries))) =
      .ok (textEntries entries) := by
    rw [Node.entries, flatEntries_textEntries]
    simp only [gather_entries hmeans (show _ ≤ fuel by omega), bind, Except.bind, pairUp_flatMap]
    rfl
  rw [hnode, value_mapping, hentries]
  exact congrArg Except.ok (Value.mapOf_textEntries hnodup)

/-- Every value that can be stored is the value of its node. -/
theorem means {k : Nat} {v : Value} (h : Storable k v) : Means v := by
  induction h with
  | scalar h =>
    intro fuel hf
    obtain ⟨fuel, rfl⟩ : ∃ f, fuel = f + 1 := ⟨fuel - 1, by omega⟩
    rw [Compose.nodeOf_scalar h]
    exact h.read fuel
  | @list k items _ ih =>
    intro fuel hf
    have hnode : nodeOf (.list items) = .sequence Tag.sequence (nodesOf items) := by rw [nodeOf]
    rw [hnode, depth] at hf
    obtain ⟨fuel, rfl⟩ : ∃ f, fuel = f + 2 := ⟨fuel - 2, by omega⟩
    rw [hnode, value_sequence, gather_nodes ih (by omega)]
    rfl
  | map hnodup _ _ ih => exact means_mapping hnodup ih

end Node

end Yaml

end CaveMap
