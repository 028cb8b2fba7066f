import CaveMap.Proofs.Yaml.Tokens

namespace CaveMap.Yaml

open Implicit Written

mutual

def nodeOf : Value → Node
  | .list items => .sequence Tag.sequence (nodesOf items)
  | .map entries => .mapping Tag.mapping (entryNodes entries)
  | v =>
    match scalar? v with
    | some (text, tag) => .scalar tag text
    | none => Compose.emptyNode

def nodesOf : List Value → List Node
  | [] => []
  | item :: rest => nodeOf item :: nodesOf rest

def entryNodes : List (Value × Value) → List (Node × Node)
  | [] => []
  | (key, value) :: rest => (nodeOf key, nodeOf value) :: entryNodes rest

end

namespace Compose

/-- A composer in front of tokens, without anchors or declared handles. -/
def ahead (tokens : List Token) : Composer := { tokens, fault := none, handles := [], anchors := [] }

/-- What a reader makes of the tokens in front of the rest. -/
def Takes {α : Type} (p : Compose α) (tokens rest : List Token) (a : α) : Prop :=
  p.run (ahead tokens) = .ok (a, ahead rest)

namespace Takes

variable {α β : Type} {p : Compose α} {f : α → Compose β} {tokens rest left : List Token} {a : α} {b : β}

theorem bind (hp : Takes p tokens rest a) (hf : Takes (f a) rest left b) : Takes (p >>= f) tokens left b := by
  unfold Takes at hp hf ⊢
  rw [StateT.run_bind, hp]
  exact hf

theorem pure (a : α) (tokens : List Token) : Takes (Pure.pure a) tokens tokens a := rfl

end Takes

section Steps

variable {fuel : Nat} {block indentless : Bool} {tokens rest left : List Token} {token : Token} {n key : Node}
  {items : List Node} {entries : List (Node × Node)}

theorem peek_cons : Takes peek (token :: rest) (token :: rest) (some token) := rfl

theorem drop_cons : Takes drop (token :: rest) rest () := rfl

theorem isFree_none : Takes (isFree none) rest rest true := rfl

theorem declare_none {declared : Option Node} : Takes (declare none declared) rest rest () := rfl

theorem node_scalar (text tag : String) (h : tag = Tag.text ∨ formOf (isOwn text tag) text.toList = .plain) :
    Takes (node block indentless (fuel + 1)) (scalarToken text tag :: rest) rest (.scalar tag text) := by
  unfold scalarToken
  by_cases hplain : formOf (isOwn text tag) text.toList = .plain
  · have htag : tagOf text = tag := by
      unfold formOf at hplain
      split at hplain
      · next hown =>
        rw [Bool.and_eq_true] at hown
        simpa [isOwn] using hown.1
      · split at hplain <;> cases hplain
    rw [decide_eq_true hplain, ← htag]
    rfl
  · rw [decide_eq_false hplain, h.resolve_right hplain]
    rfl

theorem nodeUnless_node {ends : List Token} (ht : token ∉ ends)
    (h : Takes (node block indentless fuel) (token :: tokens) rest n) :
    Takes (nodeUnless ends block indentless (fuel + 1)) (token :: tokens) rest n := by
  have hnext : Takes (nextIs ends) (token :: tokens) (token :: tokens) false := by
    have hnot : ends.contains token = false := by simpa using ht
    unfold nextIs
    refine Takes.bind (a := some token) rfl ?_
    rw [Option.any_some, hnot]
    exact Takes.pure _ _
  unfold nodeUnless
  exact Takes.bind hnext h

theorem blockItems_entry (hn : Takes (nodeUnless [.blockEntry, .blockEnd] true false fuel) tokens rest n)
    (hi : Takes (blockItems fuel) rest left items) :
    Takes (blockItems (fuel + 1)) (.blockEntry :: tokens) left (n :: items) :=
  Takes.bind (a := true) rfl (Takes.bind hn (Takes.bind hi (Takes.pure _ _)))

theorem blockItems_end : Takes (blockItems (fuel + 1)) (.blockEnd :: rest) rest [] := rfl

theorem indentlessItems_entry
    (hn : Takes (nodeUnless [.blockEntry, .key, .value, .blockEnd] true false fuel) tokens rest n)
    (hi : Takes (indentlessItems fuel) rest left items) :
    Takes (indentlessItems (fuel + 1)) (.blockEntry :: tokens) left (n :: items) :=
  Takes.bind (a := true) rfl (Takes.bind hn (Takes.bind hi (Takes.pure _ _)))

theorem indentlessItems_end (h : rest.head? ≠ some .blockEntry) :
    Takes (indentlessItems (fuel + 1)) rest rest [] := by
  have haccept : Takes (accept .blockEntry) rest rest false := by
    cases rest with
    | nil => rfl
    | cons token rest =>
      have hne : some token ≠ some .blockEntry := h
      unfold accept
      refine peek_cons.bind ?_
      rw [if_neg hne]
      exact Takes.pure _ _
  exact Takes.bind haccept (Takes.pure _ _)

theorem blockEntries_entry
    (hk : Takes (nodeUnless [.key, .value, .blockEnd] true true (fuel + 1)) tokens (.value :: rest) key)
    (hv : Takes (nodeUnless [.key, .value, .blockEnd] true true fuel) rest left n) {right : List Token}
    (he : Takes (blockEntries (fuel + 1)) left right entries) :
    Takes (blockEntries (fuel + 2)) (.key :: tokens) right ((key, n) :: entries) := by
  have hvalue : Takes (valueUnless [.key, .value, .blockEnd] true true (fuel + 1)) (.value :: rest) left n :=
    Takes.bind (a := true) rfl hv
  exact Takes.bind (a := true) rfl (Takes.bind hk (Takes.bind hvalue (Takes.bind he (Takes.pure _ _))))

theorem blockEntries_end : Takes (blockEntries (fuel + 1)) (.blockEnd :: rest) rest [] := rfl

theorem node_blockSequence (h : Takes (blockItems fuel) tokens rest items) :
    Takes (node true indentless (fuel + 1)) (.blockSequenceStart :: tokens) rest (.sequence Tag.sequence items) := by
  have hproperties :
      Takes properties (.blockSequenceStart :: tokens) (.blockSequenceStart :: tokens) (none, none) := rfl
  refine peek_cons.bind (hproperties.bind (peek_cons.bind (isFree_none.bind ?_)))
  simp only [Bool.not_true, Bool.false_eq_true, if_false, reduceCtorEq, Option.some.injEq, decide_false, decide_true,
    Bool.and_false, Bool.and_true, if_true]
  exact drop_cons.bind (declare_none.bind (h.bind (declare_none.bind (Takes.pure _ _))))

theorem node_indentless (h : Takes (indentlessItems fuel) tokens rest items) (hb : tokens.head? = some .blockEntry) :
    Takes (node true true (fuel + 1)) tokens rest (.sequence Tag.sequence items) := by
  obtain ⟨more, rfl⟩ : ∃ more, tokens = .blockEntry :: more := by
    cases tokens with
    | nil => cases hb
    | cons token more => exact ⟨more, by rw [Option.some.inj hb]⟩
  have hproperties : Takes properties (.blockEntry :: more) (.blockEntry :: more) (none, none) := rfl
  exact peek_cons.bind (hproperties.bind (peek_cons.bind (isFree_none.bind (declare_none.bind
    (h.bind (declare_none.bind (Takes.pure _ _)))))))

theorem node_blockMapping (h : Takes (blockEntries fuel) tokens rest entries) :
    Takes (node true indentless (fuel + 1)) (.blockMappingStart :: tokens) rest (.mapping Tag.mapping entries) := by
  have hproperties : Takes properties (.blockMappingStart :: tokens) (.blockMappingStart :: tokens) (none, none) := rfl
  refine peek_cons.bind (hproperties.bind (peek_cons.bind (isFree_none.bind ?_)))
  simp only [Bool.not_true, Bool.false_eq_true, if_false, reduceCtorEq, Option.some.injEq, decide_false, decide_true,
    Bool.and_false, Bool.and_true, if_true]
  exact drop_cons.bind (declare_none.bind (h.bind (declare_none.bind (Takes.pure _ _))))

theorem node_emptySequence :
    Takes (node block indentless (fuel + 2)) (.flowSequenceStart :: .flowSequenceEnd :: rest) rest
      (.sequence Tag.sequence []) := by
  cases indentless <;> rfl

theorem node_emptyMapping :
    Takes (node block indentless (fuel + 2)) (.flowMappingStart :: .flowMappingEnd :: rest) rest
      (.mapping Tag.mapping []) := by
  cases indentless <;> rfl

end Steps

/-- A value is composed to its node, whatever follows it; a sequence without a block of its own has to be allowed,
and to end. -/
def Composes (v : Value) : Prop :=
  ∀ {compact indentless : Bool} {fuel : Nat} {rest : List Token}, 3 * (valueTokens compact v).length + 2 ≤ fuel →
    (compact = false → indentless = true ∧ rest.head? ≠ some .blockEntry) →
      Takes (node true indentless fuel) (valueTokens compact v ++ rest) rest (nodeOf v)

section Values

variable {v : Value} {k fuel : Nat} {rest : List Token} {items : List Value} {entries : List (String × Value)}

theorem nodeOf_scalar {text tag : String} (h : IsScalar v text tag) : nodeOf v = .scalar tag text := by
  have hwritten := h.written
  cases v with
  | list items =>
    cases items with
    | nil =>
      cases hwritten
      exact absurd h.tagged (by decide)
    | cons => cases hwritten
  | map entries =>
    cases entries with
    | nil =>
      cases hwritten
      exact absurd h.tagged (by decide)
    | cons => cases hwritten
  | _ =>
    rw [nodeOf, hwritten]
    all_goals simp

theorem head_valueTokens (h : Storable k v) (compact : Bool) : ∃ token more, valueTokens compact v = token :: more ∧
    token ∉ [Token.key, .value, .blockEnd] ∧ (compact → token ≠ .blockEntry) := by
  cases h with
  | scalar hs => exact ⟨_, _, hs.valueTokens compact, by simp [scalarToken], fun _ => by simp [scalarToken]⟩
  | @list k items _ =>
    by_cases hne : items = []
    · rw [hne]
      exact ⟨_, _, rfl, by simp, fun _ => by simp⟩
    · rw [valueTokens_sequence compact hne]
      cases compact with
      | true => exact ⟨_, _, rfl, by simp, fun _ => by simp⟩
      | false =>
        cases items with
        | nil => exact absurd rfl hne
        | cons item rest =>
          rw [if_neg Bool.false_ne_true, itemTokens]
          exact ⟨_, _, rfl, by simp, fun h => absurd h Bool.false_ne_true⟩
  | @map k entries =>
    by_cases hne : textEntries entries = []
    · rw [hne]
      exact ⟨_, _, rfl, by simp, fun _ => by simp⟩
    · rw [valueTokens_mapping compact hne]
      exact ⟨_, _, rfl, by simp, fun _ => by simp⟩

theorem nodeUnless_value (h : Storable k v) (hv : Composes v) {compact indentless : Bool} {ends : List Token}
    (hends : ∀ token ∈ ends, token ∈ [Token.key, .value, .blockEnd] ∨ (compact ∧ token = .blockEntry))
    (hf : 3 * (valueTokens compact v).length + 3 ≤ fuel)
    (hc : compact = false → indentless = true ∧ rest.head? ≠ some .blockEntry) :
    Takes (nodeUnless ends true indentless fuel) (valueTokens compact v ++ rest) rest (nodeOf v) := by
  obtain ⟨fuel, rfl⟩ : ∃ f, fuel = f + 1 := ⟨fuel - 1, by omega⟩
  obtain ⟨token, more, hhead, hothers, hentry⟩ := head_valueTokens h compact
  have hnode : Takes (node true indentless fuel) (valueTokens compact v ++ rest) rest (nodeOf v) :=
    hv (by omega) hc
  have hnot : token ∉ ends := by
    intro hin
    rcases hends token hin with hin | ⟨hcompact, heq⟩
    · exact hothers hin
    · exact hentry hcompact heq
  rw [hhead] at hnode ⊢
  exact nodeUnless_node hnot hnode

theorem length_itemTokens (item : Value) (others : List Value) : (itemTokens (item :: others)).length =
    (valueTokens true item).length + (itemTokens others).length + 1 := by
  simp [itemTokens]

theorem blockItems_itemTokens (hitems : ∀ item ∈ items, Storable k item) (hcomposes : ∀ item ∈ items, Composes item)
    (hf : 3 * (itemTokens items).length + 1 ≤ fuel) :
    Takes (blockItems fuel) (itemTokens items ++ .blockEnd :: rest) rest (nodesOf items) := by
  induction items generalizing fuel with
  | nil =>
    obtain ⟨fuel, rfl⟩ : ∃ f, fuel = f + 1 := ⟨fuel - 1, by omega⟩
    exact blockItems_end
  | cons item others ih =>
    rw [length_itemTokens] at hf
    obtain ⟨fuel, rfl⟩ : ∃ f, fuel = f + 1 := ⟨fuel - 1, by omega⟩
    have hitem : Takes (nodeUnless [.blockEntry, .blockEnd] true false fuel)
        (valueTokens true item ++ (itemTokens others ++ .blockEnd :: rest)) (itemTokens others ++ .blockEnd :: rest)
        (nodeOf item) := by
      exact nodeUnless_value (hitems item List.mem_cons_self) (hcomposes item List.mem_cons_self) (by simp) (by omega)
        fun h => absurd h (by decide)
    have hothers : Takes (blockItems fuel) (itemTokens others ++ .blockEnd :: rest) rest (nodesOf others) :=
      ih (fun other hin => hitems other (List.mem_cons_of_mem _ hin))
        (fun other hin => hcomposes other (List.mem_cons_of_mem _ hin)) (by omega)
    rw [itemTokens, nodesOf]
    simp only [List.cons_append, List.append_assoc]
    exact blockItems_entry hitem hothers

theorem indentlessItems_itemTokens (hitems : ∀ item ∈ items, Storable k item)
    (hcomposes : ∀ item ∈ items, Composes item) (hf : 3 * (itemTokens items).length + 1 ≤ fuel)
    (hrest : rest.head? ≠ some .blockEntry) :
    Takes (indentlessItems fuel) (itemTokens items ++ rest) rest (nodesOf items) := by
  induction items generalizing fuel with
  | nil =>
    obtain ⟨fuel, rfl⟩ : ∃ f, fuel = f + 1 := ⟨fuel - 1, by omega⟩
    exact indentlessItems_end hrest
  | cons item others ih =>
    rw [length_itemTokens] at hf
    obtain ⟨fuel, rfl⟩ : ∃ f, fuel = f + 1 := ⟨fuel - 1, by omega⟩
    have hitem : Takes (nodeUnless [.blockEntry, .key, .value, .blockEnd] true false fuel)
        (valueTokens true item ++ (itemTokens others ++ rest)) (itemTokens others ++ rest) (nodeOf item) := by
      exact nodeUnless_value (hitems item List.mem_cons_self) (hcomposes item List.mem_cons_self) (by simp) (by omega)
        fun h => absurd h (by decide)
    have hothers : Takes (indentlessItems fuel) (itemTokens others ++ rest) rest (nodesOf others) :=
      ih (fun other hin => hitems other (List.mem_cons_of_mem _ hin))
        (fun other hin => hcomposes other (List.mem_cons_of_mem _ hin)) (by omega)
    rw [itemTokens, nodesOf]
    simp only [List.cons_append, List.append_assoc]
    exact indentlessItems_entry hitem hothers

theorem entryTokens_cons (key : String) (v : Value) (others : List (String × Value)) :
    entryTokens (textEntries ((key, v) :: others)) = .key :: scalarToken key Tag.text :: .value ::
      (valueTokens (!isSimpleKey key Tag.text) v ++ entryTokens (textEntries others)) := by
  simp [textEntries, entryTokens, scalar?]

theorem blockEntries_entryTokens (hvalues : ∀ entry ∈ entries, Storable k entry.2)
    (hcomposes : ∀ entry ∈ entries, Composes entry.2)
    (hf : 3 * (entryTokens (textEntries entries)).length + 1 ≤ fuel) :
    Takes (blockEntries fuel) (entryTokens (textEntries entries) ++ .blockEnd :: rest) rest
      (entryNodes (textEntries entries)) := by
  induction entries generalizing fuel with
  | nil =>
    obtain ⟨fuel, rfl⟩ : ∃ f, fuel = f + 1 := ⟨fuel - 1, by omega⟩
    exact blockEntries_end
  | cons entry others ih =>
    obtain ⟨key, v⟩ := entry
    have hvalue : Storable k v := hvalues (key, v) List.mem_cons_self
    have hv : Composes v := hcomposes (key, v) List.mem_cons_self
    have hnodes : entryNodes (textEntries ((key, v) :: others)) =
        (.scalar Tag.text key, nodeOf v) :: entryNodes (textEntries others) := rfl
    rw [entryTokens_cons, List.length_cons, List.length_cons, List.length_cons, List.length_append] at hf
    obtain ⟨fuel, rfl⟩ : ∃ f, fuel = f + 3 := ⟨fuel - 3, by omega⟩
    have hothers : Takes (blockEntries (fuel + 2)) (entryTokens (textEntries others) ++ .blockEnd :: rest) rest
        (entryNodes (textEntries others)) :=
      ih (fun other hin => hvalues other (List.mem_cons_of_mem _ hin))
        (fun other hin => hcomposes other (List.mem_cons_of_mem _ hin)) (by omega)
    have hbehind : (entryTokens (textEntries others) ++ .blockEnd :: rest).head? ≠ some .blockEntry := by
      cases others with
      | nil => simp [textEntries, entryTokens]
      | cons other more =>
        rw [entryTokens_cons]
        simp
    have hnode : Takes (nodeUnless [.key, .value, .blockEnd] true true (fuel + 1))
        (valueTokens (!isSimpleKey key Tag.text) v ++ (entryTokens (textEntries others) ++ .blockEnd :: rest))
        (entryTokens (textEntries others) ++ .blockEnd :: rest) (nodeOf v) :=
      nodeUnless_value hvalue hv (by simp) (by omega) fun _ => ⟨rfl, hbehind⟩
    rw [entryTokens_cons, hnodes]
    simp only [List.cons_append, List.append_assoc]
    exact blockEntries_entry
      (nodeUnless_node (by simp [scalarToken]) (node_scalar key Tag.text (.inl rfl))) hnode hothers

/-- Every value that can be stored is composed to its node. -/
theorem composes (h : Storable k v) : Composes v := by
  induction h with
  | scalar h =>
    intro compact indentless fuel rest hf _
    obtain ⟨fuel, rfl⟩ : ∃ f, fuel = f + 1 := ⟨fuel - 1, by omega⟩
    rw [h.valueTokens, nodeOf_scalar h]
    exact node_scalar _ _ h.form
  | @list k items hitems ih =>
    intro compact indentless fuel rest hf hc
    obtain ⟨fuel, rfl⟩ : ∃ f, fuel = f + 2 := ⟨fuel - 2, by omega⟩
    rcases Classical.em (items = []) with rfl | hne
    · exact node_emptySequence
    · have hnode : nodeOf (.list items) = .sequence Tag.sequence (nodesOf items) := by rw [nodeOf]
      rw [valueTokens_sequence compact hne] at hf ⊢
      rw [hnode]
      cases compact with
      | true =>
        rw [if_pos rfl, List.length_append, List.length_cons, List.length_singleton] at hf
        rw [if_pos rfl, List.append_assoc, List.cons_append]
        exact node_blockSequence (blockItems_itemTokens hitems ih (by omega))
      | false =>
        obtain ⟨rfl, hrest⟩ := hc rfl
        rw [if_neg Bool.false_ne_true] at hf ⊢
        refine node_indentless (indentlessItems_itemTokens hitems ih (by omega) hrest) ?_
        cases items with
        | nil => exact absurd rfl hne
        | cons item others =>
          rw [itemTokens]
          rfl
  | @map k entries _ _ hvalues ih =>
    intro compact indentless fuel rest hf _
    obtain ⟨fuel, rfl⟩ : ∃ f, fuel = f + 2 := ⟨fuel - 2, by omega⟩
    rcases Classical.em (textEntries entries = []) with hnil | hne
    · rw [hnil]
      exact node_emptyMapping
    · have hnode : nodeOf (.map (textEntries entries)) = .mapping Tag.mapping (entryNodes (textEntries entries)) := by
        rw [nodeOf]
      rw [valueTokens_mapping compact hne, List.length_append, List.length_cons, List.length_singleton] at hf
      rw [valueTokens_mapping compact hne, hnode, List.append_assoc, List.cons_append]
      exact node_blockMapping (blockEntries_entryTokens hvalues ih (by omega))

end Values

theorem single_mapping {fuel : Nat} {tokens : List Token} {n : Node}
    (h : Takes (node true false fuel) (.blockMappingStart :: tokens) [] n) :
    Takes (single fuel) (.blockMappingStart :: tokens) [] (some n) := by
  have hends : Takes (dropEnds fuel) [] [] () := by cases fuel <;> rfl
  have hnone : Takes peek [] [] none := rfl
  exact peek_cons.bind (h.bind (hends.bind (hnone.bind (Takes.pure _ _))))

end Compose

/-- A written mapping is read as its node. -/
theorem read_document {entries : List (String × Value)} {k : Nat} (hclean : ∀ c ∈ document (.map (textEntries entries)),
    isAllowed c) (hkeys : ∀ entry ∈ entries, IsKey entry.1) (hvalues : ∀ entry ∈ entries, Storable k entry.2)
    (hne : entries ≠ []) (hw : 2 * k + 2 < width) :
    Node.read (document (.map (textEntries entries))) =
      .ok (some (.mapping Tag.mapping (entryNodes (textEntries entries)))) := by
  have hall : (document (.map (textEntries entries))).all isAllowed := List.all_eq_true.2 hclean
  have hscan := scan_document hkeys hvalues hne hw
  have hentries : Compose.Takes (Compose.single (4 * (.blockMappingStart :: entryTokens (textEntries entries) ++
      [Token.blockEnd]).length + 8)) (.blockMappingStart :: entryTokens (textEntries entries) ++ [.blockEnd]) []
      (some (.mapping Tag.mapping (entryNodes (textEntries entries)))) := by
    refine Compose.single_mapping (Compose.node_blockMapping (Compose.blockEntries_entryTokens hvalues
      (fun entry hin => Compose.composes (hvalues entry hin)) ?_))
    rw [List.length_append, List.length_cons, List.length_singleton]
    omega
  unfold Node.read
  rw [if_pos hall, hscan]
  rw [Compose.Takes, Compose.ahead] at hentries
  simp only [bind, Except.bind, hentries]
  rfl

end CaveMap.Yaml
