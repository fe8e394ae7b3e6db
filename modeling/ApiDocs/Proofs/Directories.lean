import ApiDocs.Proofs.TreeExtraction
import Mathlib.Data.List.Flatten

/-!
# The directories of a walk

A walk below a root is said here by places, the names that lead from the root to a directory: which
directories it comes to, in which order, and which of them it warns of. Names are compared by their bytes.
-/

namespace ApiDocs

/-! ## Bytes of names -/

def bytes (s : String) : List UInt8 := s.toUTF8.data.toList

theorem bytes_eq (s : String) : bytes s = s.toList.flatMap String.utf8EncodeChar := by
  change s.toByteArray.data.toList = _
  rw [← String.utf8Encode_toList, List.utf8Encode, List.toList_data_toByteArray]

/-- The first byte in which the codes of two characters differ decides, whatever follows. -/
theorem utf8EncodeChar_lt {c d : Char} (h : c < d) (s t : List UInt8) :
    String.utf8EncodeChar c ++ s < String.utf8EncodeChar d ++ t := by
  have hcd : c.val.toNat < d.val.toNat := h
  have hd : d.val.toNat < 0x110000 := by
    have hvalid := d.valid
    simp only [UInt32.isValidChar, Nat.isValidChar] at hvalid
    omega
  unfold String.utf8EncodeChar
  generalize c.val.toNat = m at *
  generalize d.val.toNat = n at *
  dsimp only
  -- one case for each pair of lengths
  split_ifs <;> simp (disch := omega) [List.cons_lt_cons_iff, UInt8.lt_iff_toNat_lt, ← UInt8.toNat_inj,
    Nat.mod_eq_of_lt] <;> omega

theorem utf8EncodeChar_ne_nil (c : Char) : String.utf8EncodeChar c ≠ [] := by
  unfold String.utf8EncodeChar
  dsimp only
  split_ifs <;> simp

theorem flatMap_utf8EncodeChar_lt {cs ds : List Char} (h : cs < ds) :
    cs.flatMap String.utf8EncodeChar < ds.flatMap String.utf8EncodeChar := by
  induction h with
  | nil =>
    rename_i d ds
    rw [List.flatMap_cons]
    cases hd : String.utf8EncodeChar d with
    | nil => exact absurd hd (utf8EncodeChar_ne_nil d)
    | cons b bs => exact List.Lex.nil
  | cons h ih =>
    rw [List.flatMap_cons, List.flatMap_cons]
    exact List.append_left_lt ih
  | rel h => exact utf8EncodeChar_lt h _ _

/-- The order of texts is that of their bytes. -/
theorem bytes_lt {s t : String} (h : s < t) : bytes s < bytes t := by
  rw [bytes_eq, bytes_eq]
  exact flatMap_utf8EncodeChar_lt (String.lt_iff.mp h)

/-! ## The order of a walk -/

/-- A walk comes to one place before another: the other is below it, or where they part its name has the
lesser bytes. -/
abbrev Precedes : List String → List String → Prop := List.Lex fun x y => bytes x < bytes y

namespace Precedes
variable {a b c dir : List String}

theorem not_of_prefix (h : dir <+: a) : ¬Precedes a dir := by
  induction dir generalizing a with
  | nil => exact List.not_lex_nil
  | cons x dir ih =>
    obtain ⟨t, rfl⟩ := h
    intro hlex
    cases hlex with
    | cons hlex => exact ih (List.prefix_append dir t) hlex
    | rel hx => exact List.lt_irrefl _ hx

/-- What lies between two places below a directory is below it too. -/
theorem prefix_between (hab : Precedes a b) (hbc : Precedes b c) (ha : dir <+: a) (hc : dir <+: c) : dir <+: b := by
  induction dir generalizing a b c with
  | nil => exact List.nil_prefix
  | cons x dir ih =>
    obtain ⟨s, rfl⟩ := ha
    obtain ⟨t, rfl⟩ := hc
    cases hab with
    | cons hab =>
      cases hbc with
      | cons hbc => exact (List.prefix_cons_inj x).mpr (ih hab hbc (List.prefix_append ..) (List.prefix_append ..))
      | rel hx => exact absurd hx (List.lt_irrefl _)
    | rel hxy =>
      cases hbc with
      | cons hbc => exact absurd hxy (List.lt_irrefl _)
      | rel hyx => exact absurd hyx (List.lt_asymm hxy)

end Precedes

/-- Of the places that follow a directory, those below it come first. -/
theorem exists_below {dir : List String} {after : List (List String)} (hdir : ∀ place ∈ after, Precedes dir place)
    (hafter : after.Pairwise Precedes) :
    ∃ below rest, after = below ++ rest ∧ (∀ place ∈ below, dir <+: place) ∧ ∀ place ∈ rest, ¬dir <+: place := by
  induction after with
  | nil => exact ⟨[], [], rfl, List.forall_mem_nil _, List.forall_mem_nil _⟩
  | cons first after ih =>
    obtain ⟨hfirst, hafter⟩ := List.pairwise_cons.mp hafter
    by_cases hbelow : dir <+: first
    · obtain ⟨below, rest, rfl, hb, hr⟩ := ih (fun place hp => hdir place (List.mem_cons_of_mem _ hp)) hafter
      exact ⟨first :: below, rest, rfl, List.forall_mem_cons.mpr ⟨hbelow, hb⟩, hr⟩
    · refine ⟨[], first :: after, rfl, List.forall_mem_nil _, List.forall_mem_cons.mpr ⟨hbelow, fun place hp h => ?_⟩⟩
      exact hbelow (Precedes.prefix_between (hdir first (List.mem_cons_self ..)) (hfirst place hp) (List.prefix_refl dir) h)

/-- In the order of a walk a directory comes right before all that is below it. -/
theorem split_of_pairwise {before after : List (List String)} {dir : List String}
    (h : (before ++ dir :: after).Pairwise Precedes) :
    ∃ below rest, after = below ++ rest ∧ (∀ place ∈ below, dir <+: place) ∧
      ∀ place ∈ before ++ rest, ¬dir <+: place := by
  obtain ⟨-, hafter, hbefore⟩ := List.pairwise_append.mp h
  obtain ⟨hdir, hafter⟩ := List.pairwise_cons.mp hafter
  obtain ⟨below, rest, he, hbelow, hrest⟩ := exists_below hdir hafter
  refine ⟨below, rest, he, hbelow, fun place hplace => ?_⟩
  rcases List.mem_append.mp hplace with hplace | hplace
  · exact fun hprefix => Precedes.not_of_prefix hprefix (hbefore place hplace dir (List.mem_cons_self ..))
  · exact hrest place hplace

/-! ## Places of a walk -/

def Path.descend (path : String) (names : List String) : String := names.foldl join path

namespace Entry
variable {ignored : List String}

mutual
def places (ignored : List String) : Entry → List (List String)
  | .file _ => []
  | .sealed => [[]]
  | .directory children => [] :: ((childPlaces ignored children).mergeSort fun a b => a.1 ≤ b.1).flatMap (·.2)
def childPlaces (ignored : List String) : List (String × Entry) → List (String × List (List String))
  | [] => []
  | (name, e) :: rest =>
    if isWalked ignored name then (name, (e.places ignored).map (name :: ·)) :: childPlaces ignored rest
    else childPlaces ignored rest
end

theorem childPlaces_eq (ignored : List String) : ∀ children : List (String × Entry),
    childPlaces ignored children = (children.filter fun c => isWalked ignored c.1).map fun c =>
      (c.1, (c.2.places ignored).map (c.1 :: ·))
  | [] => rfl
  | (name, e) :: rest => by
    rw [childPlaces, childPlaces_eq ignored rest, List.filter_cons]
    split <;> rfl

theorem places_directory (ignored : List String) (children : List (String × Entry)) :
    (directory children).places ignored =
      [] :: (walked ignored children).flatMap fun c => (c.2.places ignored).map (c.1 :: ·) := by
  rw [places, childPlaces_eq, flatMap_mergeSort]
  rfl

def isSealed : Entry → Bool
  | .sealed => true
  | _ => false

def sealedAt (e : Entry) (place : List String) : Bool := (e.find? place).any isSealed

/-- The walk lists the paths of its places, and can read those that are not sealed. -/
theorem visits_eq_map : ∀ {e : Entry} (path : String), e.IsTree → e.visits ignored path =
    (e.places ignored).map fun place => ⟨Path.descend path place, !e.sealedAt place⟩
  | .file _, _, _ => by rw [visits, places, List.map_nil]
  | .sealed, _, _ => by
    rw [visits, places]
    rfl
  | .directory children, path, h => by
    rw [IsTree, areTrees_iff] at h
    rw [visits_directory, places_directory, List.map_cons, List.map_flatMap]
    refine congrArg (_ :: ·) (List.flatMap_congr fun c hc => ?_)
    have hmem := mem_of_mem_walked hc
    have hlt := sizeOf_child_lt hmem
    rw [visits_eq_map _ (h.2 c hmem).2, List.map_map]
    refine List.map_congr_left fun place _ => ?_
    simp only [Function.comp_apply, sealedAt, find?, lookup_of_mem h.1 hmem, Option.bind_some]
    rfl
termination_by e => sizeOf e
decreasing_by exact hlt

theorem mem_walked_iff {children : List (String × Entry)} {c : String × Entry} :
    c ∈ walked ignored children ↔ c ∈ children ∧ isWalked ignored c.1 = true := by
  rw [walked, List.mem_mergeSort, List.mem_filter]

/-- A walk comes to the directories that no hidden or ignored name leads to. -/
theorem mem_places_iff {e : Entry} {place : List String} (h : e.IsTree) :
    place ∈ e.places ignored ↔ (∃ dir, e.find? place = some dir ∧ dir.isDirectory = true) ∧
      ∀ name ∈ place, isWalked ignored name = true := by
  induction place generalizing e with
  | nil => cases e <;> simp [places, find?, isDirectory]
  | cons name place ih =>
    cases e with
    | file content => simp [places, find?]
    | sealed => simp [places, find?]
    | directory children =>
      rw [IsTree, areTrees_iff] at h
      rw [places_directory, find?, List.forall_mem_cons]
      simp only [List.mem_cons, reduceCtorEq, false_or, List.mem_flatMap, List.mem_map, List.cons.injEq,
        mem_walked_iff]
      constructor
      · rintro ⟨c, ⟨hc, hwalked⟩, inner, hinner, rfl, rfl⟩
        obtain ⟨hfind, hnames⟩ := (ih (h.2 c hc).2).mp hinner
        rw [lookup_of_mem h.1 hc]
        exact ⟨hfind, hwalked, hnames⟩
      · rintro ⟨⟨dir, hfind, hdir⟩, hwalked, hnames⟩
        obtain ⟨child, hchild, hfind⟩ := Option.bind_eq_some_iff.mp hfind
        have hc := mem_of_lookup hchild
        exact ⟨(name, child), ⟨hc, hwalked⟩, place, (ih (h.2 _ hc).2).mpr ⟨⟨dir, hfind, hdir⟩, hnames⟩, rfl, rfl⟩

theorem pairwise_walked {children : List (String × Entry)} (h : (children.map (·.1)).Nodup) :
    (walked ignored children).Pairwise fun a b => bytes a.1 < bytes b.1 := by
  have hsorted : (walked ignored children).Pairwise fun a b => a.1 ≤ b.1 := by
    refine (List.pairwise_mergeSort ?_ ?_ _).imp fun hle => of_decide_eq_true hle
    · exact fun a b c hab hbc => decide_eq_true (String.le_trans (of_decide_eq_true hab) (of_decide_eq_true hbc))
    · intro a b
      rw [Bool.or_eq_true, decide_eq_true_iff, decide_eq_true_iff]
      exact String.le_total ..
  have hdistinct : (walked ignored children).Pairwise fun a b => a.1 ≠ b.1 := by
    refine ((List.mergeSort_perm _ _).pairwise_iff fun hne => Ne.symm hne).mpr ?_
    exact (List.pairwise_map.mp h).sublist List.filter_sublist
  exact (hsorted.and hdistinct).imp fun ⟨hle, hne⟩ =>
    bytes_lt (Dict.lt_of_not_lt_of_ne (String.not_lt.mpr hle) hne.symm)

/-- A walk comes to its places in their order. -/
theorem pairwise_places : ∀ {e : Entry}, e.IsTree → (e.places ignored).Pairwise Precedes
  | .file _, _ => by
    rw [places]
    exact .nil
  | .sealed, _ => by
    rw [places]
    exact List.pairwise_singleton ..
  | .directory children, h => by
    rw [IsTree, areTrees_iff] at h
    rw [places_directory, List.pairwise_cons, List.pairwise_flatMap]
    refine ⟨fun place hplace => ?_, fun c hc => ?_, ?_⟩
    · obtain ⟨c, _, hplace⟩ := List.mem_flatMap.mp hplace
      obtain ⟨inner, _, rfl⟩ := List.mem_map.mp hplace
      exact List.Lex.nil
    · have hmem := mem_of_mem_walked hc
      have hlt := sizeOf_child_lt hmem
      rw [List.pairwise_map]
      exact (pairwise_places (h.2 c hmem).2).imp List.Lex.cons
    · refine (pairwise_walked h.1).imp fun hlt a ha b hb => ?_
      obtain ⟨_, _, rfl⟩ := List.mem_map.mp ha
      obtain ⟨_, _, rfl⟩ := List.mem_map.mp hb
      exact List.Lex.rel hlt
termination_by e => sizeOf e
decreasing_by exact hlt

end Entry

/-! ## The paths of a walk -/

theorem isWalked_iff {ignored : List String} {name : String} :
    isWalked ignored name = true ↔ name.toList.head? ≠ some '.' ∧ name ∉ ignored := by
  simp [isWalked]

/-- The path of a place leads to it. -/
theorem Disk.locate_descend {d : Disk} (ht : d.root.IsTree) : ∀ {names place : List String} {path : String} {e e' : Entry},
    d.locate path = .ok place → d.root.find? place = some e → e.find? names = some e' →
      d.locate (Path.descend path names) = .ok (place ++ names)
  | [], place, path, e, e', hl, _, _ => by
    rw [List.append_nil]
    exact hl
  | name :: names, place, path, .file _, e', _, _, h => by cases h
  | name :: names, place, path, .sealed, e', _, _, h => by cases h
  | name :: names, place, path, .directory children, e', hl, hf, h => by
    rw [Entry.find?] at h
    obtain ⟨child, hchild, h⟩ := Option.bind_eq_some_iff.mp h
    have hdir := ht.find? hf
    rw [Entry.IsTree, Entry.areTrees_iff] at hdir
    have hname := (hdir.2 _ (mem_of_lookup hchild)).1
    have hchildAt : d.root.find? (place ++ [name]) = some child := by
      rw [Entry.find?_append, hf]
      simp [Entry.find?, hchild]
    rw [Path.descend, List.foldl_cons, ← Path.descend, Disk.locate_descend ht (Disk.locate_join hl hf hname (by rw [hchild]; rfl)) hchildAt h,
      List.append_assoc, List.singleton_append]

namespace Precedes

/-- Of two places that part below a directory, the one with the lesser name comes first. -/
theorem bytes_lt_of_ne {dir as bs : List String} {x y : String} (h : Precedes (dir ++ x :: as) (dir ++ y :: bs))
    (hne : x ≠ y) : bytes x < bytes y := by
  induction dir with
  | nil =>
    cases h with
    | cons _ => exact absurd rfl hne
    | rel hlt => exact hlt
  | cons name dir ih =>
    cases h with
    | cons h => exact ih h
    | rel hlt => exact absurd hlt (List.lt_irrefl _)

end Precedes

/-- A walk warns of the sealed directories that it comes to, in their order. -/
theorem Disk.walk_eq {d : Disk} {ignored : List String} {root : String} {children : List (String × Entry)}
    (ht : (Entry.directory children).IsTree) (h : d.entry root = .ok (.directory children)) :
    d.walk ignored root = .ok {
      directories := ((Entry.directory children).places ignored).map (Path.descend root)
      warnings := (((Entry.directory children).places ignored).filter (Entry.directory children).sealedAt).map
        fun place => Walk.warning (Path.descend root place) } := by
  rw [walk_of_entry h, Walk.ofVisits, Entry.visits_eq_map root ht, List.map_map, List.filter_map, List.map_map]
  simp only [Function.comp_def, Bool.not_not]

/-- A sealed directory is listed, with a warning. -/
example : (Disk.mk (.directory [("a", .sealed)]) []).walk [] "/" = .ok ⟨["/", "/a"],
    ["Failed to access path: IO error for operation on /a: Permission denied (os error 13)"]⟩ := by
  decide +kernel

theorem Entry.IsReadable.not_sealedAt {e : Entry} (h : e.IsReadable) (place : List String) :
    e.sealedAt place = false := by
  unfold sealedAt
  cases hfind : e.find? place with
  | none => rfl
  | some found =>
    have hfound := h.find? hfind
    cases found with
    | sealed => cases hfound
    | _ => rfl

/-- **The directories of a walk.** The walk below a root in a readable tree lists without warnings the paths of
the directories that no hidden or ignored name leads to, each once. A directory comes right before all that is
below it, and directories that stand in one directory come in the order of the bytes of their names. -/
theorem directories_in_order (d : Disk) (ignored : List String) (root : String) (children : List (String × Entry))
    (ht : d.root.IsTree) (h : d.entry root = .ok (.directory children)) (hr : (Entry.directory children).IsReadable) :
    ∃ walk : List (List String),
      d.walk ignored root = .ok { directories := walk.map (Path.descend root), warnings := [] } ∧
      (walk.map (Path.descend root)).Nodup ∧
      (∀ place ∈ walk, (d.entry (Path.descend root place)).toOption = (Entry.directory children).find? place) ∧
      (∀ place, place ∈ walk ↔ (∃ es, (Entry.directory children).find? place = some (.directory es)) ∧
        ∀ name ∈ place, name.toList.head? ≠ some '.' ∧ name ∉ ignored) ∧
      (∀ before dir after, walk = before ++ dir :: after → ∃ below rest, after = below ++ rest ∧
        (∀ place ∈ below, dir <+: place) ∧ ∀ place ∈ before ++ rest, ¬dir <+: place) ∧
      walk.Pairwise fun a b => ∀ dir x y as bs, a = dir ++ x :: as → b = dir ++ y :: bs → x ≠ y →
        bytes x < bytes y := by
  obtain ⟨start, hstart, hfind⟩ := Disk.entry_eq_ok_iff.mp h
  have htree := ht.find? hfind
  have hmem : ∀ place, place ∈ (Entry.directory children).places ignored ↔
      (∃ es, (Entry.directory children).find? place = some (.directory es)) ∧
        ∀ name ∈ place, isWalked ignored name = true := by
    intro place
    rw [Entry.mem_places_iff htree]
    refine and_congr_left fun _ => ⟨?_, fun ⟨es, hes⟩ => ⟨_, hes, rfl⟩⟩
    rintro ⟨dir, hfind, hdir⟩
    -- what stands there is a directory, and it is not sealed
    have hreadable := hr.find? hfind
    cases dir with
    | file content => cases hdir
    | directory es => exact ⟨es, hfind⟩
    | sealed => cases hreadable
  have hlocate : ∀ place ∈ (Entry.directory children).places ignored,
      d.locate (Path.descend root place) = .ok (start ++ place) := by
    intro place hplace
    obtain ⟨⟨es, hes⟩, -⟩ := (hmem place).mp hplace
    exact Disk.locate_descend ht hstart hfind hes
  have horder : ((Entry.directory children).places ignored).Pairwise Precedes := Entry.pairwise_places htree
  refine ⟨(Entry.directory children).places ignored, ?_, ?_, fun place hplace => ?_, fun place => ?_, ?_, ?_⟩
  · rw [Disk.walk_eq htree h, List.filter_eq_nil_iff.mpr fun place _ => by simp [hr.not_sealedAt place], List.map_nil]
  · rw [List.Nodup, List.pairwise_map]
    refine horder.imp_of_mem fun {a b} ha hb hab heq => ?_
    -- one path cannot lead to two places
    have hsame := hlocate a ha
    rw [heq, hlocate b hb] at hsame
    rw [List.append_cancel_left (Except.ok.inj hsame)] at hab
    exact Precedes.not_of_prefix (List.prefix_refl _) hab
  · obtain ⟨⟨es, hes⟩, -⟩ := (hmem place).mp hplace
    have hentry : d.entry (Path.descend root place) = .ok (.directory es) := by
      refine Disk.entry_eq_ok_iff.mpr ⟨start ++ place, hlocate place hplace, ?_⟩
      rw [Entry.find?_append, hfind]
      exact hes
    rw [hentry, hes]
    rfl
  · rw [hmem place]
    simp only [isWalked_iff]
  · intro before dir after hwalk
    rw [hwalk] at horder
    exact split_of_pairwise horder
  · refine horder.imp fun {a b} hab dir x y as bs ha hb hne => ?_
    subst ha hb
    exact hab.bytes_lt_of_ne hne

/-- A hidden root with a hidden and an ignored directory in it, and a file with the name of an ignored one. -/
def libraryTree : List (String × Entry) := [
  ("b", .directory [("target", .directory [("c", .directory [])]), ("c", .directory [])]),
  ("a-b", .directory []),
  (".git", .directory [("c", .directory [])]),
  ("a", .directory [("target", .file .empty), ("z", .directory [])])]

def libraryDisk : Disk := { root := .directory [(".lib", .directory libraryTree)], here := [] }

/-- What is below `a` comes before `a-b`, although a hyphen comes before a slash. -/
theorem directories_in_order_library : libraryDisk.root.IsTree ∧
    libraryDisk.entry "/.lib" = .ok (.directory libraryTree) ∧ (Entry.directory libraryTree).IsReadable ∧
    libraryDisk.walk ["target"] "/.lib" =
      .ok ⟨["/.lib", "/.lib/a", "/.lib/a/z", "/.lib/a-b", "/.lib/b", "/.lib/b/c"], []⟩ ∧
    ∃ walk : List (List String), libraryDisk.walk ["target"] "/.lib" =
        .ok ⟨walk.map (Path.descend "/.lib"), []⟩ ∧
      ["a", "z"] ∈ walk ∧ ["a", "target"] ∉ walk ∧ ["b", "target", "c"] ∉ walk := by
  have htree : libraryDisk.root.IsTree := by
    simp [libraryDisk, libraryTree, Entry.IsTree, Entry.AreTrees, IsName]
  have hreadable : (Entry.directory libraryTree).IsReadable := by
    simp [libraryTree, Entry.IsReadable, Entry.AreReadable]
  obtain ⟨walk, hwalk, -, -, hmem, -, -⟩ :=
    directories_in_order libraryDisk ["target"] "/.lib" libraryTree htree rfl hreadable
  have hvisits : (Entry.directory libraryTree).visits ["target"] "/.lib" =
      ["/.lib", "/.lib/a", "/.lib/a/z", "/.lib/a-b", "/.lib/b", "/.lib/b/c"].map (⟨·, true⟩) := by
    have hw : ∀ name ∈ ["a", "a-b", "b", "c", "z"], isWalked ["target"] name = true := by decide
    have hn : ∀ name ∈ [".git", "target"], isWalked ["target"] name = false := by decide
    simp [libraryTree, Entry.visits, Entry.childVisits, hw, hn, List.mergeSort,
      List.MergeSort.Internal.splitInTwo]
    decide +kernel
  have hpaths : libraryDisk.walk ["target"] "/.lib" =
      .ok ⟨["/.lib", "/.lib/a", "/.lib/a/z", "/.lib/a-b", "/.lib/b", "/.lib/b/c"], []⟩ := by
    have hroot : libraryDisk.entry "/.lib" = .ok (.directory libraryTree) := rfl
    rw [Disk.walk_of_entry hroot, hvisits]
    rfl
  refine ⟨htree, rfl, hreadable, hpaths, walk, hwalk, (hmem _).mpr ⟨⟨[], rfl⟩, by simp⟩, fun h => ?_, fun h => ?_⟩
  · obtain ⟨⟨es, hes⟩, -⟩ := (hmem _).mp h
    cases hes
  · exact (((hmem _).mp h).2 "target" (by simp)).2 (by simp)

end ApiDocs
