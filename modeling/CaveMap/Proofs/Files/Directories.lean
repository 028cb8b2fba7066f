import CaveMap.Proofs.Files.Tree

namespace CaveMap

structure Path.Acceptable (p : Path) : Prop where
  nulls : ∀ name ∈ p.names, '\x00' ∉ name.toList
  length : p.text.utf8ByteSize ≤ FileTree.maxPath

namespace Path

theorem joinedSize_le (names : List String) (last : String) :
    (String.intercalate "/" names).utf8ByteSize ≤ (String.intercalate "/" (names ++ [last])).utf8ByteSize := by
  induction names with
  | nil => simp
  | cons name rest ih =>
    cases rest with
    | nil =>
      rw [List.singleton_append, String.intercalate_singleton, String.intercalate_cons_cons,
        String.utf8ByteSize_append, String.utf8ByteSize_append]
      omega
    | cons second rest =>
      rw [List.cons_append, List.cons_append, String.intercalate_cons_cons, String.intercalate_cons_cons,
        String.utf8ByteSize_append, String.utf8ByteSize_append, String.utf8ByteSize_append,
        String.utf8ByteSize_append]
      rw [List.cons_append] at ih
      omega

theorem Acceptable.front {slashes : Nat} {names : List String} {last : String}
    (h : (⟨slashes, names ++ [last]⟩ : Path).Acceptable) : (⟨slashes, names⟩ : Path).Acceptable where
  nulls name hin := h.nulls name (List.mem_append_left _ hin)
  length := by
    have hsize := joinedSize_le names last
    have hlength := h.length
    unfold text at hlength ⊢
    rw [if_neg (by simp), String.utf8ByteSize_append] at hlength
    split
    · decide
    · rw [String.utf8ByteSize_append]
      exact Nat.le_trans (Nat.add_le_add_left hsize _) hlength

end Path

namespace FileTree

variable {tree tree' : FileTree} {place q : List String}

def origin (tree : FileTree) (slashes : Nat) : List String := if slashes = 0 then tree.working else []

theorem locate_eq {p : Path} (h : p.Acceptable) :
    tree.locate p = tree.walk (tree.origin p.slashes) p.names := by
  have horigin : (if p.isAbsolute then [] else tree.working) = tree.origin p.slashes := by
    simp [origin, Path.isAbsolute]
  have hnull : p.names.any (·.toList.contains '\x00') = false := by
    rw [List.any_eq_false]
    intro name hin
    simpa using h.nulls name hin
  rw [locate, hnull, if_neg (by simp), if_neg (Nat.not_lt.2 h.length), horigin]
  rfl

theorem acceptable_of_locate {p : Path} (h : tree.locate p = .ok place) : p.Acceptable := by
  unfold locate at h
  split at h
  · cases h
  · next hnull =>
    split at h
    · cases h
    · next hlong =>
      refine ⟨fun name hin hnull' => hnull ?_, Nat.not_lt.1 hlong⟩
      exact List.any_eq_true.2 ⟨name, hin, by simpa using hnull'⟩

theorem Proper.origin_directory (h : tree.Proper) (slashes : Nat) :
    tree.get? (tree.origin slashes) = some .directory := by
  unfold origin
  split
  · exact h.working
  · rfl

theorem Proper.not_mem_origin (h : tree.Proper) (slashes : Nat) : ".." ∉ tree.origin slashes :=
  h.names _ (by rw [h.origin_directory]; exact Option.some_ne_none _)

/-- The same tree but for new directories at some places. -/
structure Extends (tree tree' : FileTree) (made : List String → Prop) : Prop where
  working : tree'.working = tree.working
  entries : ∀ q, tree'.get? q = tree.get? q ∨
    (tree.get? q = none ∧ tree'.get? q = some .directory ∧ made q)

namespace Extends

variable {made made' : List String → Prop}

theorem refl (tree : FileTree) (made : List String → Prop) : tree.Extends tree made :=
  ⟨rfl, fun _ => .inl rfl⟩

theorem mono (h : tree.Extends tree' made) (hm : ∀ q, made q → made' q) : tree.Extends tree' made' :=
  ⟨h.working, fun q => (h.entries q).imp_right fun ⟨hn, hd, hq⟩ => ⟨hn, hd, hm q hq⟩⟩

theorem trans {tree'' : FileTree} (h : tree.Extends tree' made) (h' : tree'.Extends tree'' made) :
    tree.Extends tree'' made where
  working := h'.working.trans h.working
  entries q := by
    rcases h.entries q with he | ⟨hn, hd, hq⟩
    · rcases h'.entries q with he' | ⟨hn', hd', hq'⟩
      · exact .inl (he'.trans he)
      · exact .inr ⟨he ▸ hn', hd', hq'⟩
    · rcases h'.entries q with he' | ⟨hn', -⟩
      · exact .inr ⟨hn, he'.trans hd, hq⟩
      · rw [hd] at hn'
        cases hn'

theorem get?_eq (h : tree.Extends tree' made) {entry : FileEntry} (he : tree.get? q = some entry) :
    tree'.get? q = some entry := by
  rcases h.entries q with hsame | ⟨hn, -⟩
  · rw [hsame, he]
  · rw [he] at hn
    cases hn

theorem file (h : tree.Extends tree' made) {bytes : List UInt8} (hf : tree'.get? q = some (.file bytes)) :
    tree.get? q = some (.file bytes) := by
  rcases h.entries q with hsame | ⟨-, hd, -⟩
  · rw [← hsame, hf]
  · rw [hf] at hd
    cases hd

theorem set_new (hnone : tree.get? place = none) :
    tree.Extends (tree.set place .directory) (· = place) ∧
      (tree.set place .directory).get? place = some .directory := by
  have hne : place ≠ [] := by
    rintro rfl
    cases hnone
  refine ⟨⟨rfl, fun q => ?_⟩, by rw [get?_set tree _ hne, if_pos rfl]⟩
  rw [get?_set tree _ hne]
  split
  · next he => exact .inr ⟨he ▸ hnone, rfl, he⟩
  · exact .inl rfl

end Extends

theorem locate_concat {p : Path} (hp : p.Acceptable) {names : List String} {name : String}
    (hn : p.names = names ++ [name]) (hw : tree.walk (tree.origin p.slashes) names = .ok place) :
    tree.locate p = tree.step place name := by
  rw [locate_eq hp, hn, walk_append, hw]
  exact walk_singleton tree place name

theorem ensureDirectory_there {p : Path} (hl : tree.locate p = .ok place)
    (hd : tree.get? place = some .directory) : tree.ensureDirectory p = .ok tree := by
  have hmake : tree.makeDirectory p = .error .alreadyThere := by
    rw [makeDirectory, hl]
    simp only [bind, Except.bind, hd]
    rfl
  have hthere : tree.isDirectory p = true := by
    rw [isDirectory, hl]
    simp [hd]
  rw [ensureDirectory, hmake]
  simp only [hthere]
  rfl

theorem ensureDirectory_noEntry {p : Path} (hl : tree.locate p = .error .noEntry) :
    tree.ensureDirectory p = .error .noEntry := by
  rw [ensureDirectory, makeDirectory, hl]
  rfl

theorem ensureDirectory_ok (h : tree.Proper) {p : Path} (hp : p.Acceptable) {names : List String}
    {name : String} (hn : p.names = names ++ [name])
    (hw : tree.walk (tree.origin p.slashes) names = .ok place) (hd : tree.get? place = some .directory)
    (hs : name = ".." ∨ name.utf8ByteSize ≤ maxName)
    (hfile : ∀ bytes, tree.get? (Path.stepBack (place ++ [name])) ≠ some (.file bytes)) :
    ∃ tree', tree.ensureDirectory p = .ok tree' ∧
      tree.Extends tree' (· = Path.stepBack (place ++ [name])) ∧ tree'.Proper ∧
      tree'.get? (Path.stepBack (place ++ [name])) = some .directory := by
  have hplace : ".." ∉ place := h.names place (by rw [hd]; exact Option.some_ne_none _)
  have hlocate : tree.locate p = .ok (Path.stepBack (place ++ [name])) := by
    rw [locate_concat hp hn hw, step_ok hd hplace hs]
  cases hg : tree.get? (Path.stepBack (place ++ [name])) with
  | some entry =>
    cases entry with
    | file bytes => exact absurd hg (hfile bytes)
    | directory => exact ⟨tree, ensureDirectory_there hlocate hg, .refl tree _, h, hg⟩
  | none =>
    have hname : name ≠ ".." := by
      rintro rfl
      rw [Path.stepBack_append_up, Path.stepBack_names hplace] at hg
      cases place using List.reverseRecOn with
      | nil => cases hg
      | append_singleton front last =>
        rw [List.dropLast_concat] at hg
        rw [h.directory_of_prefix hd] at hg
        cases hg
    have hback : Path.stepBack (place ++ [name]) = place ++ [name] := by
      refine Path.stepBack_names ?_
      rw [List.mem_append, not_or]
      exact ⟨hplace, by simpa [eq_comm] using hname⟩
    rw [hback] at hg hlocate ⊢
    have hproper : (tree.set (place ++ [name]) .directory).Proper := h.set_entry hd hname (by simp [hg]) _
    have hmake : tree.makeDirectory p = .ok (tree.set (place ++ [name]) .directory) := by
      rw [makeDirectory, hlocate]
      simp only [bind, Except.bind, hg]
      rfl
    obtain ⟨hext, hthere⟩ := Extends.set_new hg
    exact ⟨_, by rw [ensureDirectory, hmake]; rfl, hext, hproper, hthere⟩

def OnWay (start names place : List String) : Prop :=
  ∃ front, front <+: names ∧ place = Path.stepBack (start ++ front)

theorem onWay_last (start names : List String) : OnWay start names (Path.stepBack (start ++ names)) :=
  ⟨names, List.prefix_rfl, rfl⟩

theorem OnWay.further {start names : List String} {last : String} (h : OnWay start names place) :
    OnWay start (names ++ [last]) place := by
  obtain ⟨front, hin, he⟩ := h
  exact ⟨front, hin.trans (List.prefix_append names [last]), he⟩

def Clear (tree : FileTree) (start names : List String) : Prop :=
  ∀ place, OnWay start names place → ∀ bytes, tree.get? place ≠ some (.file bytes)

theorem Clear.front {start names : List String} {last : String} (h : tree.Clear start (names ++ [last])) :
    tree.Clear start names :=
  fun place hp => h place hp.further

theorem Clear.extends {start names : List String} {made : List String → Prop} (h : tree.Clear start names)
    (he : tree.Extends tree' made) : tree'.Clear start names :=
  fun place hp bytes hf => h place hp bytes (he.file hf)

theorem walk_clear {start names : List String} (hstart : ".." ∉ start) (hc : tree.Clear start names)
    (hs : ∀ name ∈ names, name = ".." ∨ name.utf8ByteSize ≤ maxName) :
    tree.walk start names = .ok (Path.stepBack (start ++ names)) ∨
      tree.walk start names = .error .noEntry := by
  induction names using List.reverseRecOn with
  | nil => exact .inl (by rw [List.append_nil, Path.stepBack_names hstart]; rfl)
  | append_singleton names name ih =>
    rw [walk_append]
    rcases ih hc.front fun n hn => hs n (List.mem_append_left _ hn) with hok | hmissing
    · rw [hok]
      change tree.walk (Path.stepBack (start ++ names)) [name] = _ ∨ tree.walk _ [name] = _
      rw [walk_singleton]
      cases hg : tree.get? (Path.stepBack (start ++ names)) with
      | none =>
        right
        rw [step, hg]
        rfl
      | some entry =>
        cases entry with
        | file bytes => exact absurd hg (hc _ (onWay_last _ names).further bytes)
        | directory =>
          left
          rw [step_ok hg (Path.not_mem_stepBack _) (hs name (by simp)), Path.stepBack_stepBack_append,
            List.append_assoc]
    · exact .inr (by rw [hmissing]; rfl)

structure Leads (tree : FileTree) (start names : List String) : Prop where
  walk : tree.walk start names = .ok (Path.stepBack (start ++ names))
  directory : tree.get? (Path.stepBack (start ++ names)) = some .directory

theorem Leads.mono {start names : List String} (h : tree.Leads start names)
    (hd : ∀ p, tree.get? p = some .directory → tree'.get? p = some .directory) : tree'.Leads start names :=
  ⟨walk_mono hd h.walk, hd _ h.directory⟩

theorem ensureDirectory_leads (h : tree.Proper) {slashes : Nat} {names : List String} {name : String}
    (ha : (⟨slashes, names ++ [name]⟩ : Path).Acceptable) (hs : name = ".." ∨ name.utf8ByteSize ≤ maxName)
    (hc : tree.Clear (tree.origin slashes) (names ++ [name])) (hl : tree.Leads (tree.origin slashes) names) :
    ∃ tree', tree.ensureDirectory ⟨slashes, names ++ [name]⟩ = .ok tree' ∧
      tree.Extends tree' (OnWay (tree.origin slashes) (names ++ [name])) ∧ tree'.Proper ∧
       tree'.Leads (tree.origin slashes) (names ++ [name]) := by
  have hback : Path.stepBack (Path.stepBack (tree.origin slashes ++ names) ++ [name]) =
      Path.stepBack (tree.origin slashes ++ (names ++ [name])) := by
    rw [Path.stepBack_stepBack_append, List.append_assoc]
  have hfile (bytes : List UInt8) :
      tree.get? (Path.stepBack (Path.stepBack (tree.origin slashes ++ names) ++ [name])) ≠
        some (.file bytes) := by
    rw [hback]
    exact hc _ (onWay_last _ _) bytes
  obtain ⟨tree', hok, hext, hproper, hd⟩ := ensureDirectory_ok h ha rfl hl.walk hl.directory hs hfile
  refine ⟨tree', hok, hext.mono fun q hq => ?_, hproper, ?_, hback ▸ hd⟩
  · rw [hq, hback]
    exact onWay_last _ _
  · have hl' := hl.mono fun p hp => hext.get?_eq hp
    rw [walk_append, hl'.walk, ← hback]
    exact (walk_singleton tree' _ name).trans (step_ok hl'.directory (Path.not_mem_stepBack _) hs)

/-- Where a clear way does not lead to a directory, nothing that lies further in can be looked up. -/
theorem locate_missing {slashes : Nat} {names : List String} {name : String}
    (hstart : ".." ∉ tree.origin slashes) (ha : (⟨slashes, names ++ [name]⟩ : Path).Acceptable)
    (hc : tree.Clear (tree.origin slashes) (names ++ [name]))
    (hs : ∀ n ∈ names, n = ".." ∨ n.utf8ByteSize ≤ maxName) (hl : ¬ tree.Leads (tree.origin slashes) names) :
    tree.locate ⟨slashes, names ++ [name]⟩ = .error .noEntry := by
  rw [locate_eq ha, walk_append]
  rcases walk_clear hstart hc.front hs with hok | hmissing
  · rw [hok]
    change tree.walk (Path.stepBack (tree.origin slashes ++ names)) [name] = _
    rw [walk_singleton]
    cases hg : tree.get? (Path.stepBack (tree.origin slashes ++ names)) with
    | none =>
      rw [step, hg]
      rfl
    | some entry =>
      cases entry with
      | file bytes => exact absurd hg (hc _ (onWay_last _ names).further bytes)
      | directory => exact absurd ⟨hok, hg⟩ hl
  · rw [hmissing]
    rfl

theorem ensureWay_direct {slashes : Nat} {name : String} {up : List String}
    (h : tree.ensureDirectory ⟨slashes, (name :: up).reverse⟩ = .ok tree') :
    tree.ensureWay slashes (name :: up) = (tree', .ok ()) := by
  rw [ensureWay, h]

theorem ensureWay_upward {tree₁ : FileTree} {slashes : Nat} {name : String} {up : List String}
    (h : tree.ensureDirectory ⟨slashes, (name :: up).reverse⟩ = .error .noEntry)
    (h₁ : tree.ensureWay slashes up = (tree₁, .ok ()))
    (h₂ : tree₁.ensureDirectory ⟨slashes, (name :: up).reverse⟩ = .ok tree') :
    tree.ensureWay slashes (name :: up) = (tree', .ok ()) := by
  rw [ensureWay, h]
  simp only [h₁, h₂]

theorem ensureWay_ok (h : tree.Proper) {slashes : Nat} {up : List String}
    (ha : (⟨slashes, up.reverse⟩ : Path).Acceptable)
    (hs : ∀ name ∈ up, name = ".." ∨ name.utf8ByteSize ≤ maxName)
    (hc : tree.Clear (tree.origin slashes) up.reverse) :
    ∃ tree', tree.ensureWay slashes up = (tree', .ok ()) ∧
      tree.Extends tree' (OnWay (tree.origin slashes) up.reverse) ∧ tree'.Proper ∧
      tree'.Leads (tree.origin slashes) up.reverse := by
  have horigin := h.not_mem_origin slashes
  induction up with
  | nil =>
    have hl : tree.locate ⟨slashes, []⟩ = .ok (tree.origin slashes) := locate_eq ha
    have hback : Path.stepBack (tree.origin slashes ++ []) = tree.origin slashes := by
      rw [List.append_nil, Path.stepBack_names horigin]
    refine ⟨tree, ?_, .refl tree _, h, ?_, ?_⟩
    · rw [ensureWay, ensureDirectory_there hl (h.origin_directory slashes)]
    · rw [List.reverse_nil, hback]
      rfl
    · rw [List.reverse_nil, hback]
      exact h.origin_directory slashes
  | cons name up ih =>
    rw [List.reverse_cons] at ha hc ⊢
    have hname := hs name List.mem_cons_self
    have hup : ∀ n ∈ up, n = ".." ∨ n.utf8ByteSize ≤ maxName := fun n hn => hs n (List.mem_cons_of_mem _ hn)
    by_cases hl : tree.Leads (tree.origin slashes) up.reverse
    · obtain ⟨tree', hok, hrest⟩ := ensureDirectory_leads h ha hname hc hl
      exact ⟨tree', ensureWay_direct (by rw [List.reverse_cons, hok]), hrest⟩
    · have hmissing := locate_missing horigin ha hc (fun n hn => hup n (List.mem_reverse.1 hn)) hl
      obtain ⟨tree₁, hok₁, hext₁, hproper₁, hleads₁⟩ := ih ha.front hup hc.front
      have horigin₁ : tree₁.origin slashes = tree.origin slashes := by rw [origin, origin, hext₁.working]
      rw [← horigin₁] at hc hleads₁
      obtain ⟨tree', hok, hext, hproper, hleads⟩ :=
        ensureDirectory_leads hproper₁ ha hname (hc.extends hext₁) hleads₁
      rw [horigin₁] at hext hleads
      refine ⟨tree', ?_, (hext₁.mono fun q hq => hq.further).trans hext, hproper, hleads⟩
      rw [← List.reverse_cons] at hmissing hok
      exact ensureWay_upward (ensureDirectory_noEntry hmissing) hok₁ hok

/-- A way along which there are directories or can be made some. -/
structure Passable (tree : FileTree) (slashes : Nat) (names : List String) : Prop where
  acceptable : (⟨slashes, names⟩ : Path).Acceptable
  short : ∀ name ∈ names, name = ".." ∨ name.utf8ByteSize ≤ maxName
  clear : tree.Clear (tree.origin slashes) names

theorem Passable.make {p : Path} (h : tree.Proper) (hp : tree.Passable p.slashes p.names) :
    ∃ made, tree.makeDirectories p = (made, .ok ()) ∧ tree.Extends made (OnWay (tree.origin p.slashes) p.names) ∧
      made.Proper ∧ made.Leads (made.origin p.slashes) p.names := by
  have hreverse : p.names.reverse.reverse = p.names := List.reverse_reverse _
  obtain ⟨made, hmade, hext, hproper, hleads⟩ := @ensureWay_ok tree h p.slashes p.names.reverse
    (by rw [hreverse]; exact hp.acceptable) (fun name hin => hp.short name (List.mem_reverse.1 hin))
    (by rw [hreverse]; exact hp.clear)
  rw [hreverse] at hext hleads
  have horigin : made.origin p.slashes = tree.origin p.slashes := by rw [origin, origin, hext.working]
  exact ⟨made, hmade, hext, hproper, horigin.symm ▸ hleads⟩

end FileTree

end CaveMap
