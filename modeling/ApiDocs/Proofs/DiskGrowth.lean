import ApiDocs.Proofs.Places
import Mathlib.Data.List.TakeWhile

/-!
# Disks that grow

A directory that is made, and a file that is written where nothing was, leave everything else as it was.
What stands at a place is said here without what stands below it, so that a directory with a new entry
stays what it is.
-/

namespace ApiDocs

/-- What stands at a place, without what stands below it. -/
inductive Kind where
  | file (content : ByteArray)
  | directory
  | sealed

/-! ## Trees -/

namespace Entry

def kind : Entry → Kind
  | file content => .file content
  | directory _ => .directory
  | sealed => .sealed

def IsLeaf (e : Entry) : Prop := ∀ name names, e.find? (name :: names) = none

theorem isLeaf_file (content : ByteArray) : (file content).IsLeaf := fun _ _ => rfl

theorem isLeaf_directory : (directory []).IsLeaf := fun _ _ => rfl

theorem lookup_place (name n : String) (e : Entry) : ∀ children : List (String × Entry),
    (place name e children).lookup n = if n = name then some e else children.lookup n
  | [] => by
    by_cases h : n = name
    · simp [place, h]
    · simp [place, h, List.lookup_cons, beq_eq_false_iff_ne.mpr h]
  | (m, old) :: rest => by
    rw [place]
    by_cases hm : m = name
    · by_cases h : n = name
      · simp [hm, h]
      · simp [hm, h, List.lookup_cons, beq_eq_false_iff_ne.mpr h]
    · by_cases h : n = m
      · simp [h, hm]
      · simp [hm, List.lookup_cons, beq_eq_false_iff_ne.mpr h, lookup_place name n e rest]

/-- A leaf that is set in a directory, under a name that was free, changes nothing at other places. -/
theorem kind_find?_set {name : String} {leaf : Entry} (hleaf : leaf.IsLeaf) :
    ∀ {parent : List String} {e : Entry}, (e.find? parent).map kind = some .directory →
      e.find? (parent ++ [name]) = none → ∀ place : List String,
      ((e.set (parent ++ [name]) leaf).find? place).map kind =
        if place = parent ++ [name] then some leaf.kind else (e.find? place).map kind
  | [], .file _, h, _, _ => by cases h
  | [], .sealed, h, _, _ => by cases h
  | [], .directory children, _, hfree, place => by
    have hnone : children.lookup name = none := by
      simpa [find?, Option.bind_eq_none_iff] using hfree
    rw [List.nil_append, set, set]
    cases place with
    | nil => rfl
    | cons n ns =>
      rw [find?, find?, lookup_place]
      by_cases hn : n = name
      · subst hn
        rw [if_pos rfl, Option.bind_some, hnone]
        cases ns with
        | nil => simp [find?]
        | cons m ms => simp [hleaf m ms]
      · simp [hn]
  | p :: ps, .file _, h, _, _ => by cases h
  | p :: ps, .sealed, h, _, _ => by cases h
  | p :: ps, .directory children, h, hfree, place => by
    rw [find?] at h
    rw [List.cons_append, find?] at hfree
    rw [List.cons_append, set]
    cases hchild : children.lookup p with
    | none =>
      rw [hchild] at h
      cases h
    | some child =>
      rw [hchild, Option.bind_some] at h hfree
      cases place with
      | nil => rfl
      | cons n ns =>
        rw [find?, find?, lookup_place, Option.getD_some]
        by_cases hn : n = p
        · subst hn
          rw [if_pos rfl, hchild, Option.bind_some, Option.bind_some, kind_find?_set hleaf h hfree ns]
          simp
        · simp [hn]

end Entry

/-! ## Parts of paths -/

namespace Path

theorem prefix_of_splitLast? : ∀ {ps before : List String} {last : String},
    splitLast? ps = some (before, last) → before ++ [last] <+: ps
  | p :: ps, before, last, h => by
    rw [splitLast?] at h
    cases hrest : splitLast? ps with
    | some r =>
      rw [hrest] at h
      obtain ⟨rfl, rfl⟩ := Prod.mk.inj (Option.some.inj h)
      exact (List.prefix_cons_inj p).mpr (prefix_of_splitLast? hrest)
    | none =>
      rw [hrest] at h
      dsimp only at h
      split at h
      · cases h
      · obtain ⟨rfl, rfl⟩ := Prod.mk.inj (Option.some.inj h)
        exact List.prefix_append [p] ps

theorem prefix_of_lastPart? {ps before : List String} {last : String} (h : lastPart? ps = some (before, last)) :
    before ++ [last] <+: ps := by
  unfold lastPart? at h
  split at h
  · rename_i ps
    cases hrest : splitLast? ps with
    | some r =>
      rw [hrest] at h
      obtain ⟨rfl, rfl⟩ := Prod.mk.inj (Option.some.inj h)
      exact (List.prefix_cons_inj ".").mpr (prefix_of_splitLast? hrest)
    | none =>
      rw [hrest] at h
      obtain ⟨rfl, rfl⟩ := Prod.mk.inj (Option.some.inj h)
      exact List.prefix_append ["."] ps
  · exact prefix_of_splitLast? h

/-- The path of the directory that holds something has no other names in it. -/
theorem mem_parts_of_parent? {path parent name : String} (h : parent? path = some parent)
    (hname : name ∈ Text.parts '/' parent) (hne : name ≠ "") : name ∈ Text.parts '/' path := by
  unfold parent? at h
  obtain ⟨⟨before, last⟩, hlast, h⟩ := Option.bind_eq_some_iff.mp h
  dsimp only at h
  split at h
  · rename_i outer last' houter
    have hparts : outer ++ [last'] <+: Text.parts '/' path :=
      (prefix_of_lastPart? houter).trans ((List.prefix_append _ _).trans (prefix_of_lastPart? hlast))
    have hparent : Text.parts '/' ("/".intercalate (outer ++ [last'])) = outer ++ [last'] :=
      Text.parts_intercalate (by simp) fun p hp => Text.not_mem_of_mem_parts (hparts.subset hp)
    rw [← Option.some.inj h, hparent] at hname
    exact hparts.subset hname
  · -- a path with one part at most is in the root or at the start
    have hblank : Text.parts '/' "/" = ["", ""] ∧ Text.parts '/' "" = [""] := by decide
    rw [← Option.some.inj h] at hname
    split at hname
    · simp [hblank.1, hne] at hname
    · simp [hblank.2, hne] at hname

/-- A path has a last part that says something, or none that does. -/
theorem blank_or_named : ∀ ps : List String, (∀ p ∈ ps, p = "") ∨
    ∃ before last blanks, ps = before ++ last :: blanks ∧ last ≠ "" ∧ ∀ p ∈ blanks, p = ""
  | [] => .inl (List.forall_mem_nil _)
  | p :: ps => by
    rcases blank_or_named ps with hblank | ⟨before, last, blanks, rfl, hlast, hblanks⟩
    · by_cases hp : p = ""
      · exact .inl (List.forall_mem_cons.mpr ⟨hp, hblank⟩)
      · exact .inr ⟨[], p, ps, rfl, hp, hblank⟩
    · exact .inr ⟨p :: before, last, blanks, rfl, hlast, hblanks⟩

end Path

namespace Disk

/-! ## Places -/

def kindAt (d : Disk) (place : List String) : Option Kind := (d.root.find? place).map Entry.kind

theorem kindAt_file {d : Disk} {place : List String} {content : ByteArray} :
    d.kindAt place = some (.file content) ↔ d.root.find? place = some (.file content) := by
  unfold kindAt
  cases d.root.find? place with
  | none => simp
  | some e => cases e <;> simp [Entry.kind]

theorem kindAt_directory {d : Disk} {place : List String} :
    d.kindAt place = some .directory ↔ ∃ children, d.root.find? place = some (.directory children) := by
  unfold kindAt
  cases d.root.find? place with
  | none => simp
  | some e => cases e <;> simp [Entry.kind]

theorem kindAt_sealed {d : Disk} {place : List String} :
    d.kindAt place = some .sealed ↔ d.root.find? place = some .sealed := by
  unfold kindAt
  cases d.root.find? place with
  | none => simp
  | some e => cases e <;> simp [Entry.kind]

theorem kindAt_none {d : Disk} {place : List String} : d.kindAt place = none ↔ d.root.find? place = none := by
  simp [kindAt]

theorem kindAt_dropLast {d : Disk} {place : List String} (h : d.kindAt place = some .directory) :
    d.kindAt place.dropLast = some .directory := by
  rcases List.eq_nil_or_concat' place with rfl | ⟨parent, name, rfl⟩
  · exact h
  · obtain ⟨children, hfind⟩ := kindAt_directory.mp h
    rw [Entry.find?_append] at hfind
    obtain ⟨e, he, hfind⟩ := Option.bind_eq_some_iff.mp hfind
    rw [List.dropLast_concat, kindAt_directory]
    cases e with
    | file _ => cases hfind
    | sealed => cases hfind
    | directory children => exact ⟨children, he⟩

def next (place : List String) (p : String) : List String :=
  if p = "" ∨ p = "." then place else if p = ".." then place.dropLast else place ++ [p]

/-- A part of a path may stand after the path of a directory, and after that of a sealed one if it is empty. -/
def Admits (d : Disk) (place : List String) (p : String) : Prop :=
  d.kindAt place = some .directory ∨ d.kindAt place = some .sealed ∧ p = ""

theorem Admits.directory {d : Disk} {place : List String} {p : String} (h : d.Admits place p) (hp : p ≠ "") :
    d.kindAt place = some .directory :=
  h.resolve_right fun hsealed => hp hsealed.2

theorem follow_cons {d : Disk} {place q : List String} {p : String} {ps : List String} :
    d.follow place (p :: ps) = .ok q ↔
      d.Admits place p ∧ (d.kindAt (next place p)).isSome ∧ d.follow (next place p) ps = .ok q := by
  rw [follow, Admits, kindAt]
  cases hfind : d.root.find? place with
  | none => simp
  | some e =>
    cases e with
    | file content => simp [Entry.kind]
    | sealed =>
      by_cases hp : p = ""
      · simp [hp, next, kindAt, hfind, Entry.kind]
      · simp [hp, Entry.kind]
    | directory children =>
      have hdir : d.kindAt place = some .directory := kindAt_directory.mpr ⟨children, hfind⟩
      simp only [Option.map_some, Entry.kind, true_or, true_and]
      by_cases hsame : p = "" ∨ p = "."
      · have hcond : (p.isEmpty || p == ".") = true := by simpa using hsame
        rw [next, if_pos hsame, if_pos hcond, hdir]
        simp
      · have hcond : ¬(p.isEmpty || p == ".") = true := by simpa using hsame
        rw [next, if_neg hsame, if_neg hcond]
        by_cases hup : p = ".."
        · rw [if_pos hup, if_pos (by simpa using hup), kindAt_dropLast hdir]
          simp
        · have hlook : d.root.find? (place ++ [p]) = children.lookup p := by
            rw [Entry.find?_append, hfind]
            simp [Entry.find?]
          rw [if_neg hup, if_neg (by simpa using hup), kindAt, hlook, Option.isSome_map]
          split <;> simp [*]

theorem exists_of_follow {d : Disk} : ∀ {ps place q : List String} {p : String},
    d.follow place (p :: ps) = .ok q → (d.kindAt q).isSome
  | [], place, q, p, h => by
    obtain ⟨-, hsome, hq⟩ := follow_cons.mp h
    rw [follow] at hq
    rwa [← Except.ok.inj hq]
  | _ :: _, _, _, _, h => exists_of_follow (follow_cons.mp h).2.2

theorem exists_of_locate {d : Disk} {path : String} {place : List String} (h : d.locate path = .ok place) :
    (d.kindAt place).isSome := by
  rw [locate_of_ne (ne_of_locate h)] at h
  obtain ⟨p, ps, hparts⟩ := List.exists_cons_of_ne_nil (Text.parts_ne_nil '/' path)
  rw [hparts] at h
  exact exists_of_follow h

theorem contains_iff {d : Disk} {path : String} : d.contains path = true ↔ ∃ place, d.locate path = .ok place := by
  unfold contains entry
  cases hl : d.locate path with
  | error e => simp [bind, Except.bind, Except.isOk, Except.toBool]
  | ok place =>
    have hsome := exists_of_locate hl
    rw [kindAt, Option.isSome_map] at hsome
    obtain ⟨e, he⟩ := Option.isSome_iff_exists.mp hsome
    simp [bind, Except.bind, Except.isOk, Except.toBool, he]

theorem isDirectory_iff {d : Disk} {path : String} :
    d.isDirectory path = true ↔ ∃ place, d.locate path = .ok place ∧ d.Admits place "" := by
  unfold isDirectory
  constructor
  · intro h
    cases he : d.entry path with
    | error e => simp [he] at h
    | ok e =>
      obtain ⟨place, hl, hf⟩ := entry_eq_ok_iff.mp he
      cases e with
      | file _ => simp [he, Entry.isDirectory] at h
      | directory children => exact ⟨place, hl, .inl (kindAt_directory.mpr ⟨children, hf⟩)⟩
      | sealed => exact ⟨place, hl, .inr ⟨kindAt_sealed.mpr hf, rfl⟩⟩
  · rintro ⟨place, hl, hdir | ⟨hsealed, -⟩⟩
    · obtain ⟨children, hf⟩ := kindAt_directory.mp hdir
      rw [entry_eq_ok_iff.mpr ⟨place, hl, hf⟩]
      rfl
    · rw [entry_eq_ok_iff.mpr ⟨place, hl, kindAt_sealed.mp hsealed⟩]
      rfl

/-! ## Growth -/

/-- A disk keeps what stands at every place of another, and what is new on it is `made`. -/
structure Grows (made : List String → Kind → Prop) (d d' : Disk) : Prop where
  here : d'.here = d.here
  kept : ∀ {place kind}, d.kindAt place = some kind → d'.kindAt place = some kind
  new : ∀ {place kind}, d'.kindAt place = some kind → d.kindAt place = none → made place kind

namespace Grows
variable {made made' : List String → Kind → Prop} {d d' d'' : Disk}

theorem refl (made : List String → Kind → Prop) (d : Disk) : Grows made d d where
  here := rfl
  kept h := h
  new h hnone := by
    rw [hnone] at h
    cases h

theorem trans (h : Grows made d d') (h' : Grows made d' d'') : Grows made d d'' where
  here := h'.here.trans h.here
  kept hk := h'.kept (h.kept hk)
  new := by
    intro place kind hk hnone
    cases hk' : d'.kindAt place with
    | none => exact h'.new hk hk'
    | some kind' =>
      rw [h'.kept hk'] at hk
      exact Option.some.inj hk ▸ h.new hk' hnone

theorem mono (h : Grows made d d') (himp : ∀ place kind, made place kind → made' place kind) : Grows made' d d' where
  here := h.here
  kept := h.kept
  new hk hnone := himp _ _ (h.new hk hnone)

theorem isSome (h : Grows made d d') {place : List String} (hs : (d.kindAt place).isSome) :
    (d'.kindAt place).isSome := by
  obtain ⟨kind, hk⟩ := Option.isSome_iff_exists.mp hs
  rw [h.kept hk]
  rfl

theorem admits (h : Grows made d d') {place : List String} {p : String} (ha : d.Admits place p) : d'.Admits place p :=
  ha.imp h.kept (And.imp_left h.kept)

theorem follow (h : Grows made d d') : ∀ {ps place q : List String},
    d.follow place ps = .ok q → d'.follow place ps = .ok q
  | [], _, _, hq => hq
  | p :: ps, place, q, hq => by
    obtain ⟨hadmits, hsome, hrest⟩ := follow_cons.mp hq
    exact follow_cons.mpr ⟨h.admits hadmits, h.isSome hsome, h.follow hrest⟩

theorem start (h : Grows made d d') (path : String) : d'.start path = d.start path := by
  rw [Disk.start, Disk.start, h.here]

/-- A path leads where it led before. -/
theorem locate (h : Grows made d d') {path : String} {place : List String} (hl : d.locate path = .ok place) :
    d'.locate path = .ok place := by
  have hne := ne_of_locate hl
  rw [locate_of_ne hne] at hl ⊢
  rw [h.start]
  exact h.follow hl

theorem contains (h : Grows made d d') {path : String} (hc : d.contains path = true) : d'.contains path = true := by
  obtain ⟨place, hl⟩ := contains_iff.mp hc
  exact contains_iff.mpr ⟨place, h.locate hl⟩

end Grows

section
variable {d : Disk} {parent : List String} {name : String} {leaf : Entry}
  (hparent : d.kindAt parent = some .directory) (hfree : d.kindAt (parent ++ [name]) = none) (hleaf : leaf.IsLeaf)
include hparent hfree hleaf

theorem kindAt_setEntry (place : List String) : (d.setEntry (parent ++ [name]) leaf).kindAt place =
    if place = parent ++ [name] then some leaf.kind else d.kindAt place :=
  Entry.kind_find?_set hleaf hparent (kindAt_none.mp hfree) place

theorem grows_setEntry :
    Grows (fun place kind => place = parent ++ [name] ∧ kind = leaf.kind) d (d.setEntry (parent ++ [name]) leaf) := by
  constructor
  · rfl
  · intro place kind hk
    rw [kindAt_setEntry hparent hfree hleaf, if_neg, hk]
    intro hplace
    rw [hplace, hfree] at hk
    cases hk
  · intro place kind hk hnone
    rw [kindAt_setEntry hparent hfree hleaf] at hk
    split at hk
    · rename_i hplace
      exact ⟨hplace, (Option.some.inj hk).symm⟩
    · rw [hnone] at hk
      cases hk

end

/-! ## Targets -/

theorem follow_concat_blank {d : Disk} {place q : List String} {ps : List String} :
    d.follow place (ps ++ [""]) = .ok q ↔ d.follow place ps = .ok q ∧ d.Admits q "" := by
  rw [follow_append]
  cases d.follow place ps with
  | error e => simp [Except.bind]
  | ok place' =>
    rw [Except.bind, follow_cons, next, if_pos (.inl rfl), follow, Except.ok.injEq]
    constructor
    · rintro ⟨hadmits, -, rfl⟩
      exact ⟨rfl, hadmits⟩
    · rintro ⟨rfl, hadmits⟩
      refine ⟨hadmits, ?_, rfl⟩
      rcases hadmits with hdir | ⟨hsealed, -⟩
      · rw [hdir]
        rfl
      · rw [hsealed]
        rfl

theorem ne_of_parts {path last : String} {before blanks : List String}
    (hparts : Text.parts '/' path = before ++ last :: blanks) (hlast : last ≠ "") : path ≠ "" := by
  rintro rfl
  have hblank : Text.parts '/' "" = [""] := by decide
  have hmem : last ∈ Text.parts '/' "" := by
    rw [hparts]
    simp
  rw [hblank] at hmem
  exact hlast (List.mem_singleton.mp hmem)

theorem target_eq (d : Disk) {path last : String} {before blanks : List String}
    (hparts : Text.parts '/' path = before ++ last :: blanks) (hlast : last ≠ "") (hblanks : ∀ p ∈ blanks, p = "") :
    d.target path = (d.follow (d.start path) (before ++ [""])).bind fun place =>
      match d.root.find? place with
      | some .sealed => .error .denied
      | _ => if last == "." || last == ".." then .ok none else .ok (some (place ++ [last])) := by
  have hnamed : (Text.parts '/' path).reverse.dropWhile String.isEmpty = last :: before.reverse := by
    have hall : ∀ p ∈ blanks.reverse, p.isEmpty = true := fun p hp => by simp [hblanks p (List.mem_reverse.mp hp)]
    rw [hparts, List.reverse_append, List.reverse_cons, List.append_assoc, List.dropWhile_append_of_pos hall]
    simp [hlast]
  unfold target
  rw [if_neg (by simpa using ne_of_parts hparts hlast)]
  simp only [hnamed, List.reverse_reverse]
  rfl

theorem target_of_blank (d : Disk) {path : String} (hne : path ≠ "") (hblank : ∀ p ∈ Text.parts '/' path, p = "") :
    d.target path = .ok none := by
  have hnamed : (Text.parts '/' path).reverse.dropWhile String.isEmpty = [] :=
    List.dropWhile_eq_nil_iff.mpr fun p hp => by simp [hblank p (List.mem_reverse.mp hp)]
  unfold target
  rw [if_neg (by simpa using hne)]
  simp only [hnamed]

/-- The target of a path stands in a directory that the parts before it lead to. -/
theorem target_eq_some {d : Disk} {path : String} {place : List String} (h : d.target path = .ok (some place)) :
    ∃ before last blanks parent, Text.parts '/' path = before ++ last :: blanks ∧ (∀ p ∈ blanks, p = "") ∧
      last ≠ "" ∧ next parent last = place ∧ d.follow (d.start path) before = .ok parent ∧
      d.kindAt parent = some .directory ∧ place = parent ++ [last] := by
  have hne : path ≠ "" := by
    rintro rfl
    cases h
  rcases Path.blank_or_named (Text.parts '/' path) with hblank | ⟨before, last, blanks, hparts, hlast, hblanks⟩
  · rw [target_of_blank d hne hblank] at h
    cases h
  · rw [target_eq d hparts hlast hblanks] at h
    cases hf : d.follow (d.start path) (before ++ [""]) with
    | error e =>
      rw [hf] at h
      cases h
    | ok parent =>
      obtain ⟨hfollow, hadmits⟩ := follow_concat_blank.mp hf
      rw [hf, Except.bind] at h
      have hdir : d.kindAt parent = some .directory := by
        refine hadmits.resolve_right fun ⟨hsealed, _⟩ => ?_
        rw [kindAt_sealed.mp hsealed] at h
        cases h
      obtain ⟨children, hchildren⟩ := kindAt_directory.mp hdir
      simp only [hchildren] at h
      split at h
      · cases h
      · rename_i hdots
        simp only [Bool.or_eq_true, beq_iff_eq, not_or] at hdots
        have hplace : parent ++ [last] = place := Option.some.inj (Except.ok.inj h)
        refine ⟨before, last, blanks, parent, hparts, hblanks, hlast, ?_, hfollow, hdir, hplace.symm⟩
        rw [next, if_neg (by simp [hlast, hdots]), if_neg hdots.2, hplace]

/-! ## Making directories -/

def IsPartOf (path : String) (place : List String) (kind : Kind) : Prop :=
  kind = .directory ∧ ∃ name ∈ Text.parts '/' path, name ≠ "" ∧ place.getLast? = some name

theorem grows_makeDirectory {d d' : Disk} {path : String} (h : d.makeDirectory path = .ok d') :
    Grows (IsPartOf path) d d' := by
  unfold makeDirectory at h
  cases ht : d.target path with
  | error e =>
    rw [ht] at h
    cases h
  | ok target =>
    rw [ht] at h
    cases target with
    | none => cases h
    | some place =>
      obtain ⟨before, last, blanks, parent, hparts, -, hlast, -, -, hdir, rfl⟩ := target_eq_some ht
      dsimp only [bind, Except.bind] at h
      split at h
      · cases h
      · rename_i hfree
        rw [← Except.ok.inj h]
        have hfree : d.kindAt (parent ++ [last]) = none := kindAt_none.mpr (by simpa using hfree)
        refine (grows_setEntry hdir hfree Entry.isLeaf_directory).mono ?_
        rintro place kind ⟨rfl, rfl⟩
        exact ⟨rfl, last, by simp [hparts], hlast, by simp⟩

/-- What a path leads to is not made again. -/
theorem makeDirectory_of_locate {d : Disk} {path : String} {place : List String} (h : d.locate path = .ok place) :
    d.makeDirectory path = .error .fileExists := by
  have hne := ne_of_locate h
  unfold makeDirectory
  rcases Path.blank_or_named (Text.parts '/' path) with hblank | ⟨before, last, blanks, hparts, hlast, hblanks⟩
  · rw [target_of_blank d hne hblank]
    rfl
  · rw [locate_of_ne hne, hparts, follow_append] at h
    cases hf : d.follow (d.start path) before with
    | error e =>
      rw [hf] at h
      cases h
    | ok parent =>
      rw [hf, Except.bind] at h
      obtain ⟨hadmits, hsome, -⟩ := follow_cons.mp h
      have hdir := hadmits.directory hlast
      obtain ⟨children, hchildren⟩ := kindAt_directory.mp hdir
      rw [target_eq d hparts hlast hblanks, follow_concat_blank.mpr ⟨hf, .inl hdir⟩, Except.bind]
      simp only [hchildren]
      by_cases hdots : last = "." ∨ last = ".."
      · have hcond : (last == "." || last == "..") = true := by simpa using hdots
        simp only [bind, Except.bind, hcond, if_true]
      · have hcond : (last == "." || last == "..") = false := by simpa using hdots
        rw [not_or] at hdots
        rw [next, if_neg (by simp [hlast, hdots]), if_neg hdots.2, kindAt, Option.isSome_map] at hsome
        simp only [Except.bind, bind, hcond, Bool.false_eq_true, if_false, hsome, if_true]

theorem grows_attempt (path : String) (d : Disk) : Grows (IsPartOf path) d (makeDirectories.attempt path d).2 := by
  unfold makeDirectories.attempt
  cases h : d.makeDirectory path with
  | ok d' => exact grows_makeDirectory h
  | error e => exact Grows.refl _ _

theorem grows_go (fuel : Nat) (path : String) (d : Disk) :
    Grows (IsPartOf path) d (makeDirectories.go fuel path d).2 := by
  induction fuel generalizing path d with
  | zero => exact Grows.refl _ _
  | succ fuel ih =>
    rw [makeDirectories.go]
    split
    · exact Grows.refl _ _
    · split
      · -- the directory that this one is in comes first
        rename_i parent _ hparent
        have hfirst : Grows (IsPartOf path) d (makeDirectories.go fuel parent d).2 := by
          refine (ih parent d).mono ?_
          rintro place kind ⟨rfl, name, hname, hne, hlast⟩
          exact ⟨rfl, name, Path.mem_parts_of_parent? hparent hname hne, hne, hlast⟩
        split
        · rename_i hgo
          rw [hgo] at hfirst
          exact hfirst.trans (grows_attempt path _)
        · exact hfirst
      · exact grows_attempt path d

theorem grows_makeDirectories (d : Disk) (path : String) : Grows (IsPartOf path) d (d.makeDirectories path).2 :=
  grows_go _ path d

theorem makeDirectories_of_isDirectory {d : Disk} {path : String} (h : d.isDirectory path = true) :
    d.makeDirectories path = (.ok (), d) := by
  obtain ⟨place, hl, -⟩ := isDirectory_iff.mp h
  have hexists := makeDirectory_of_locate hl
  have hempty : path.isEmpty = false := by simpa using ne_of_locate hl
  simp [makeDirectories, makeDirectories.go, makeDirectories.attempt, hexists, hempty, h]

/-! ## Writing files -/

/-- A path that does not end in a slash ends in its last name. -/
theorem eq_nil_of_blank {path last : String} {before blanks : List String}
    (hparts : Text.parts '/' path = before ++ last :: blanks) (hblanks : ∀ p ∈ blanks, p = "")
    (hslash : path.toList.getLast? ≠ some '/') : blanks = [] := by
  rcases List.eq_nil_or_concat' blanks with hnil | ⟨rest, p, rfl⟩
  · exact hnil
  · rw [hblanks p (by simp), ← List.cons_append, ← List.append_assoc] at hparts
    have hpath := Text.eq_of_parts_blank (by simp) hparts
    exact absurd (by simp [hpath]) hslash

/-- Where the parts of a path but the last one lead to a directory with that name, the path leads to it. -/
theorem locate_of_follow {d : Disk} {path last : String} {before parent : List String}
    (hparts : Text.parts '/' path = before ++ [last]) (hlast : last ≠ "")
    (hnext : next parent last = parent ++ [last]) (hfollow : d.follow (d.start path) before = .ok parent)
    (hdir : d.kindAt parent = some .directory) (hthere : (d.kindAt (parent ++ [last])).isSome) :
    d.locate path = .ok (parent ++ [last]) := by
  rw [locate_of_ne (ne_of_parts hparts hlast), hparts, follow_append, hfollow, Except.bind, follow_cons, hnext]
  exact ⟨.inl hdir, hthere, rfl⟩

/-- A file that is written under a path that leads nowhere is all that is new. -/
theorem grows_write {d d' : Disk} {path : String} {content : ByteArray} (hc : d.contains path = false)
    (h : d.write path content = .ok d') :
    ∃ place, d'.locate path = .ok place ∧ Grows (fun q kind => q = place ∧ kind = .file content) d d' := by
  unfold write at h
  split at h
  · rename_i place hl
    rw [contains_iff.mpr ⟨place, hl⟩] at hc
    cases hc
  · split at h
    · rename_i place ht
      split at h
      · cases h
      · rename_i hslash
        obtain ⟨before, last, blanks, parent, hparts, hblanks, hlast, hnext, hfollow, hdir, rfl⟩ := target_eq_some ht
        rw [eq_nil_of_blank hparts hblanks (by simpa using hslash)] at hparts
        have hfree : d.kindAt (parent ++ [last]) = none := by
          cases hk : d.kindAt (parent ++ [last]) with
          | none => rfl
          | some kind =>
            have hl := locate_of_follow hparts hlast hnext hfollow hdir (by rw [hk]; rfl)
            rw [contains_iff.mpr ⟨_, hl⟩] at hc
            cases hc
        have hgrows := grows_setEntry hdir hfree (Entry.isLeaf_file content)
        have hthere : ((d.setEntry (parent ++ [last]) (.file content)).kindAt (parent ++ [last])).isSome := by
          rw [kindAt_setEntry hdir hfree (Entry.isLeaf_file content), if_pos rfl]
          rfl
        have hfollow' := (hgrows.start path).symm ▸ hgrows.follow hfollow
        rw [← Except.ok.inj h]
        exact ⟨_, locate_of_follow hparts hlast hnext hfollow' (hgrows.kept hdir) hthere, hgrows⟩
    · cases h
    · cases h
  · cases h

end Disk

end ApiDocs
