import ApiDocs.Disk.Walk
import ApiDocs.Proofs.Keyed
import ApiDocs.Proofs.Parts

/-!
# Paths and places

On a disk that is a tree of files, the path of a directory with the name of one of its entries leads to
that entry, also where the path ends in a slash.
-/

namespace ApiDocs

/-! ## Trees of files -/

def IsName (name : String) : Prop := name ≠ "" ∧ '/' ∉ name.toList ∧ name ≠ "." ∧ name ≠ ".."

namespace Entry

mutual
/-- The entries of every directory have names, no two the same. -/
def IsTree : Entry → Prop
  | .file _ | .sealed => True
  | .directory children => (children.map (·.1)).Nodup ∧ AreTrees children
def AreTrees : List (String × Entry) → Prop
  | [] => True
  | (name, e) :: rest => IsName name ∧ e.IsTree ∧ AreTrees rest
end

theorem areTrees_iff : ∀ {children : List (String × Entry)},
    AreTrees children ↔ ∀ c ∈ children, IsName c.1 ∧ c.2.IsTree
  | [] => by simp [AreTrees]
  | (name, e) :: rest => by
    rw [AreTrees, areTrees_iff, List.forall_mem_cons, and_assoc]

mutual
def IsReadable : Entry → Prop
  | .file _ => True
  | .directory children => AreReadable children
  | .sealed => False
def AreReadable : List (String × Entry) → Prop
  | [] => True
  | (_, e) :: rest => e.IsReadable ∧ AreReadable rest
end

theorem areReadable_iff : ∀ {children : List (String × Entry)},
    AreReadable children ↔ ∀ c ∈ children, c.2.IsReadable
  | [] => by simp [AreReadable]
  | (name, e) :: rest => by rw [AreReadable, areReadable_iff, List.forall_mem_cons]

theorem IsReadable.child {children : List (String × Entry)} (h : (directory children).IsReadable)
    {c : String × Entry} (hc : c ∈ children) : c.2.IsReadable := by
  rw [IsReadable, areReadable_iff] at h
  exact h c hc

theorem IsReadable.find? : ∀ {e e' : Entry} {ps : List String}, e.IsReadable → e.find? ps = some e' → e'.IsReadable
  | e, e', [], h, hf => by
    simp [Entry.find?] at hf
    exact hf ▸ h
  | .file _, e', p :: ps, h, hf => by simp [Entry.find?] at hf
  | .directory children, e', p :: ps, h, hf => by
    rw [Entry.find?] at hf
    obtain ⟨child, hchild, hf⟩ := Option.bind_eq_some_iff.mp hf
    exact (h.child (mem_of_lookup hchild)).find? hf

theorem find?_append : ∀ (e : Entry) (ps qs : List String),
    e.find? (ps ++ qs) = (e.find? ps).bind (·.find? qs)
  | e, [], qs => by simp [find?]
  | .file _, p :: ps, qs => by simp [find?]
  | .sealed, p :: ps, qs => by simp [find?]
  | .directory children, p :: ps, qs => by
    rw [List.cons_append, find?, find?]
    cases children.lookup p with
    | none => rfl
    | some child => exact find?_append child ps qs

theorem IsTree.find? : ∀ {e e' : Entry} {ps : List String}, e.IsTree → e.find? ps = some e' → e'.IsTree
  | e, e', [], h, hf => by
    simp [Entry.find?] at hf
    exact hf ▸ h
  | .file _, e', p :: ps, h, hf => by simp [Entry.find?] at hf
  | .sealed, e', p :: ps, h, hf => by simp [Entry.find?] at hf
  | .directory children, e', p :: ps, h, hf => by
    rw [Entry.find?] at hf
    cases hl : children.lookup p with
    | none => simp [hl] at hf
    | some child =>
      rw [hl] at hf
      rw [IsTree, areTrees_iff] at h
      exact (h.2 _ (mem_of_lookup hl)).2.find? hf

end Entry

/-! ## Places on a disk -/

namespace Disk

theorem follow_append (d : Disk) (qs : List String) : ∀ (ps place : List String),
    d.follow place (ps ++ qs) = (d.follow place ps).bind fun place => d.follow place qs
  | [], place => rfl
  | p :: ps, place => by
    rw [List.cons_append, follow, follow]
    cases d.root.find? place with
    | none => rfl
    | some e =>
      cases e with
      | file _ => rfl
      | sealed =>
        simp only
        split
        · exact follow_append d qs ps place
        · rfl
      | directory children =>
        simp only
        split
        · exact follow_append d qs ps place
        · split
          · exact follow_append d qs ps _
          · split
            · exact follow_append d qs ps _
            · rfl

theorem follow_name {d : Disk} {place : List String} {children : List (String × Entry)} {name : String}
    (hp : d.root.find? place = some (.directory children)) (hn : IsName name)
    (hc : (children.lookup name).isSome) : d.follow place [name] = .ok (place ++ [name]) := by
  obtain ⟨hne, _, hdot, hdots⟩ := hn
  rw [follow, hp]
  simp [hne, hdot, hdots, hc, follow]

theorem follow_empty {d : Disk} {place place' : List String} (h : d.follow place [""] = .ok place') :
    place' = place := by
  rw [follow] at h
  cases hp : d.root.find? place with
  | none => simp [hp] at h
  | some e => cases e <;> simp_all [follow]

theorem locate_of_ne {d : Disk} {path : String} (h : path ≠ "") :
    d.locate path = d.follow (d.start path) (Text.parts '/' path) := by
  unfold locate
  rw [if_neg (by simpa using h)]

theorem ne_of_locate {d : Disk} {path : String} {place : List String} (h : d.locate path = .ok place) :
    path ≠ "" := by
  rintro rfl
  unfold locate at h
  cases h

theorem start_append (d : Disk) {path : String} (h : path ≠ "") (rest : String) :
    d.start (path ++ rest) = d.start path := by
  unfold start Path.isAbsolute
  rw [String.toList_append, List.head?_append_of_ne_nil _ (by simpa using h)]

theorem locate_slash {d : Disk} {path name : String} {place : List String}
    {children : List (String × Entry)} (hne : path ++ "/" ++ name ≠ "")
    (hl : d.follow (d.start (path ++ "/" ++ name)) (Text.parts '/' path) = .ok place)
    (hp : d.root.find? place = some (.directory children)) (hn : IsName name)
    (hc : (children.lookup name).isSome) : d.locate (path ++ "/" ++ name) = .ok (place ++ [name]) := by
  rw [locate_of_ne hne, Text.parts_slash path hn.2.1, follow_append, hl]
  exact follow_name hp hn hc

theorem join_of_isName (path : String) {name : String} (hn : IsName name) (hpath : path ≠ "") :
    (∃ stem, path = stem ++ "/" ∧ Path.join path name = stem ++ "/" ++ name) ∨
      Path.join path name = path ++ "/" ++ name := by
  have hrel : Path.isAbsolute name = false := by
    unfold Path.isAbsolute
    rw [beq_eq_false_iff_ne]
    intro hh
    exact hn.2.1 (List.mem_of_head? hh)
  unfold Path.join
  rw [hrel]
  by_cases hlast : path.toList.getLast? = some '/'
  · left
    obtain ⟨stem, hstem⟩ := List.getLast?_eq_some_iff.mp hlast
    have he : path = String.ofList stem ++ "/" := by
      rw [← String.toList_inj, hstem]
      simp [String.toList_append]
    refine ⟨String.ofList stem, he, ?_⟩
    rw [← he]
    simp [hlast]
  · right
    simp [hlast, hpath]

/-- The path that names an entry of a directory leads to it. -/
theorem locate_join {d : Disk} {path name : String} {place : List String}
    {children : List (String × Entry)} (hl : d.locate path = .ok place)
    (hp : d.root.find? place = some (.directory children)) (hn : IsName name)
    (hc : (children.lookup name).isSome) : d.locate (Path.join path name) = .ok (place ++ [name]) := by
  have hpath := ne_of_locate hl
  rw [locate_of_ne hpath] at hl
  rcases join_of_isName path hn hpath with ⟨stem, rfl, hj⟩ | hj
  · -- the path ends in a slash, so its last part is empty
    have hparts : Text.parts '/' (stem ++ "/") = Text.parts '/' stem ++ [""] := by
      have := Text.parts_slash stem (show '/' ∉ "".toList by simp)
      rwa [String.append_empty] at this
    rw [hparts, follow_append] at hl
    rw [hj]
    cases hs : d.follow (d.start (stem ++ "/")) (Text.parts '/' stem) with
    | error e =>
      rw [hs] at hl
      cases hl
    | ok place' =>
      rw [hs] at hl
      have := follow_empty hl
      subst this
      refine locate_slash (by simp) ?_ hp hn hc
      rw [start_append d hpath]
      exact hs
  · rw [hj]
    refine locate_slash (by simp) ?_ hp hn hc
    rw [String.append_assoc, start_append d hpath]
    exact hl

theorem entry_eq_ok_iff {d : Disk} {path : String} {e : Entry} :
    d.entry path = .ok e ↔ ∃ place, d.locate path = .ok place ∧ d.root.find? place = some e := by
  unfold entry
  cases hl : d.locate path with
  | error cause => simp [bind, Except.bind]
  | ok place =>
    cases hf : d.root.find? place with
    | none => simp [bind, Except.bind, hf]
    | some e' => simp [bind, Except.bind, hf]

theorem isTree_of_entry {d : Disk} (ht : d.root.IsTree) {path : String} {e : Entry}
    (h : d.entry path = .ok e) : e.IsTree := by
  obtain ⟨place, _, hf⟩ := entry_eq_ok_iff.mp h
  exact ht.find? hf

theorem entry_join {d : Disk} (ht : d.root.IsTree) {path name : String} {e : Entry}
    {children : List (String × Entry)} (h : d.entry path = .ok (.directory children))
    (hc : (name, e) ∈ children) : d.entry (Path.join path name) = .ok e := by
  have hdir := isTree_of_entry ht h
  rw [Entry.IsTree, Entry.areTrees_iff] at hdir
  have hlook := lookup_of_mem hdir.1 hc
  obtain ⟨place, hl, hf⟩ := entry_eq_ok_iff.mp h
  refine entry_eq_ok_iff.mpr ⟨place ++ [name], locate_join hl hf (hdir.2 _ hc).1 (by rw [hlook]; rfl), ?_⟩
  rw [Entry.find?_append, hf]
  simp [Entry.find?, hlook]

end Disk

end ApiDocs
