import ApiDocs.Proofs.DocumentText
import ApiDocs.Proofs.Yaml.Nodes

/-!
# YAML texts of trees

A tree that is written as YAML is read back node by node, so a document is read back whole from its text.
-/

namespace ApiDocs

namespace Yaml

/-! ## Characters -/

theorem printable_hexDigits (width n : Nat) : Printable (hexDigits width n) := by
  have hdigit : ∀ d, d < 16 → isPrintable (hexDigit d) = true := by decide
  induction width generalizing n with
  | zero => exact printable_nil
  | succ width ih =>
    exact printable_append.mpr ⟨ih _, printable_cons.mpr ⟨hdigit _ (Nat.mod_lt n (by decide)), printable_nil⟩⟩

theorem printable_escapeCode (c : Char) : Printable (escapeCode c) := by
  have hcoded : ∀ e width n, isPrintable e = true → Printable (e :: hexDigits width n) := fun e width n he =>
    printable_cons.mpr ⟨he, printable_hexDigits width n⟩
  unfold escapeCode
  cases hescape : letterEscapes.lookup c with
  | some letter =>
    have hall : ∀ p ∈ letterEscapes, isPrintable p.2 = true := by decide
    exact printable_cons.mpr ⟨hall _ (mem_of_lookup hescape), printable_nil⟩
  | none =>
    dsimp only
    split
    · exact hcoded _ _ _ (by decide)
    · split
      · exact hcoded _ _ _ (by decide)
      · exact hcoded _ _ _ (by decide)

theorem printable_doubleBody (cs : List Char) : Printable (doubleBody cs) := by
  intro d hd
  obtain ⟨c, -, hd⟩ := List.mem_flatMap.mp hd
  split at hd
  · exact printable_cons.mpr ⟨by decide, printable_escapeCode c⟩ d hd
  · rename_i h
    simp only [Bool.or_eq_true, Bool.not_eq_true', not_or, Bool.not_eq_false] at h
    rw [List.mem_singleton.mp hd]
    exact h.1.1.1

theorem printable_literalHints (cs : List Char) : Printable (literalHints cs) := by
  rw [literalHints_eq]
  cases hinted cs <;> cases chompingOf cs <;> decide

theorem printable_scalarChars (indent : Nat) (s : String) : Printable (scalarChars indent s) := by
  have hstyled := styled s
  unfold scalarChars
  generalize style s = st at hstyled
  have hquoted : ∀ {q : Char} {body : List Char}, isPrintable q = true → Printable body →
      Printable (q :: body ++ [q, '\n']) := fun hq hbody =>
    printable_append.mpr ⟨printable_cons.mpr ⟨hq, hbody⟩,
      printable_cons.mpr ⟨hq, printable_cons.mpr ⟨by decide, printable_nil⟩⟩⟩
  cases hstyled with
  | plain h => exact printable_append.mpr ⟨h.printable, printable_cons.mpr ⟨by decide, printable_nil⟩⟩
  | single h => exact hquoted (by decide) (printable_singleBody indent false h.printable)
  | double => exact hquoted (by decide) (printable_doubleBody s.toList)
  | literal _ h =>
    exact printable_append.mpr ⟨printable_cons.mpr ⟨by decide, printable_literalHints _⟩,
      printable_cons.mpr ⟨by decide, printable_literalBody indent true h⟩⟩

theorem printable_word {s : String} (h : IsWord s.toList) : Printable (s.toList ++ ['\n']) :=
  printable_append.mpr ⟨h.plainText.printable, printable_cons.mpr ⟨by decide, printable_nil⟩⟩

mutual
theorem printable_fieldChars : ∀ (t : Tree) (indent : Nat), Printable (fieldChars indent t)
  | .text s, indent => by
    rw [fieldChars]
    exact printable_cons.mpr ⟨by decide, printable_scalarChars _ s⟩
  | .flag b, indent => by
    rw [fieldChars, Scan.flagChars]
    exact printable_cons.mpr ⟨by decide, printable_word (isWord_flag b)⟩
  | .number n, indent => by
    rw [fieldChars]
    exact printable_cons.mpr ⟨by decide, printable_word (isWord_toString n)⟩
  | .list [], indent => by
    rw [fieldChars]
    decide
  | .object [], indent => by
    rw [fieldChars]
    decide
  | .list (t :: ts), indent => by
    rw [fieldChars]
    exact printable_cons.mpr ⟨by decide, printable_listChars (t :: ts) indent false⟩
  | .object (f :: fs), indent => by
    rw [fieldChars]
    exact printable_cons.mpr ⟨by decide, printable_objectChars (f :: fs) (indent + 2) false⟩
theorem printable_entryChars : ∀ (t : Tree) (indent : Nat), Printable (entryChars indent t)
  | .text s, indent => by
    rw [entryChars]
    exact printable_scalarChars _ s
  | .flag b, indent => by
    rw [entryChars, Scan.flagChars]
    exact printable_word (isWord_flag b)
  | .number n, indent => by
    rw [entryChars]
    exact printable_word (isWord_toString n)
  | .list [], indent => by
    rw [entryChars]
    decide
  | .object [], indent => by
    rw [entryChars]
    decide
  | .list (t :: ts), indent => by
    rw [entryChars]
    exact printable_listChars (t :: ts) (indent + 2) true
  | .object (f :: fs), indent => by
    rw [entryChars]
    exact printable_objectChars (f :: fs) (indent + 2) true
theorem printable_listChars : ∀ (ts : List Tree) (indent : Nat) (started : Bool),
    Printable (listChars indent started ts)
  | [], indent, started => by
    rw [listChars]
    exact printable_nil
  | t :: ts, indent, started => by
    rw [listChars]
    have hstart : Printable (if started then [] else spaces indent) := by
      cases started
      · exact printable_spaces indent
      · exact printable_nil
    exact printable_append.mpr ⟨printable_append.mpr ⟨hstart, printable_cons.mpr ⟨by decide,
      printable_cons.mpr ⟨by decide, printable_entryChars t indent⟩⟩⟩, printable_listChars ts indent false⟩
theorem printable_objectChars : ∀ (fs : List (String × Tree)) (indent : Nat) (started : Bool),
    Printable (objectChars indent started fs)
  | [], indent, started => by
    rw [objectChars]
    exact printable_nil
  | (k, t) :: fs, indent, started => by
    rw [objectChars]
    have hstart : Printable (if started then [] else spaces indent) := by
      cases started
      · exact printable_spaces indent
      · exact printable_nil
    refine printable_append.mpr ⟨printable_append.mpr ⟨hstart, ?_⟩, printable_objectChars fs indent false⟩
    split
    · have hkey : Printable (keyChars (indent + 2) k) := fun c hc =>
        printable_scalarChars (indent + 2) k c ((List.dropLast_sublist _).subset hc)
      exact printable_append.mpr ⟨hkey, printable_cons.mpr ⟨by decide, printable_fieldChars t indent⟩⟩
    · exact printable_append.mpr ⟨printable_append.mpr ⟨printable_cons.mpr ⟨by decide, printable_cons.mpr
        ⟨by decide, printable_scalarChars _ k⟩⟩, printable_spaces indent⟩, printable_cons.mpr ⟨by decide,
          printable_cons.mpr ⟨by decide, printable_entryChars t indent⟩⟩⟩
end

/-! ## Texts -/

theorem ne_byteOrderMark_of_isPrintable {c : Char} (h : isPrintable c = true) : c.toNat ≠ 0xFEFF := by
  intro hc
  simp [isPrintable, hc] at h

theorem tokenChars?_objectChars (f : String × Tree) (fs : List (String × Tree)) :
    tokenChars? (objectChars 0 false (f :: fs)) = some (treeTokens false (.object (f :: fs))) := by
  have hprintable := printable_objectChars (f :: fs) 0 false
  have hadmitted : (objectChars 0 false (f :: fs)).all isAdmitted = true :=
    List.all_eq_true.mpr fun c hc => isAdmitted_of_isPrintable (hprintable c hc)
  have hmark : (cellsFrom 0 0 (objectChars 0 false (f :: fs))).head?.any (fun c => c.char.toNat == 0xFEFF) = false := by
    cases hchars : objectChars 0 false (f :: fs) with
    | nil => rfl
    | cons c cs =>
      have hc : isPrintable c = true := hprintable c (hchars ▸ List.mem_cons_self ..)
      rw [cellsFrom_cons (breakChar_of_isPrintable hc)]
      simpa using ne_byteOrderMark_of_isPrintable hc
  obtain ⟨line, hreach⟩ := Scan.reaches_fields (f :: fs) 0 0 0 [] [] [] (by simp) (by omega) (.inl rfl)
  have hstart : objectChars 0 true (f :: fs) ++ [] = objectChars 0 false (f :: fs) := by
    rw [List.append_nil, objectChars_cons]
    rfl
  rw [hstart, lineCells_nil] at hreach
  obtain ⟨fuel, hfuel, hall⟩ := hreach _ (Nat.lt_succ_self _)
  obtain ⟨fuel, rfl⟩ : ∃ k, fuel = k + 1 := ⟨fuel - 1, by omega⟩
  rw [tokenChars?, if_pos hadmitted]
  simp only [hmark, Bool.false_eq_true, if_false]
  refine hall.trans ?_
  rw [Scan.all?_nil fuel rfl, treeTokens]
  simp [Scan.inBlock, Scan.closeBlocks, Scan.closeBlocks.go, Scan.inFlow, Scan.emit, Scan.dropKey?, Scan.opened,
    Scan.enclosing]

theorem ofTokens?_object {f : String × Tree} {fs : List (String × Tree)} (h : (Tree.object (f :: fs)).Bounded) :
    ∃ d, Document.ofTokens? (treeTokens false (.object (f :: fs))) = some d ∧
      d.root.shows (.object (f :: fs)) = true := by
  obtain ⟨n, hnode, hn⟩ := content?_tree standardHandles {} (.object (f :: fs)) false .block
    (4 * (treeTokens false (.object (f :: fs))).length + 3) [] h (by simp) (by simp) (by omega)
  rw [← node?_treeTokens, List.append_nil] at hnode
  refine ⟨⟨n, {}⟩, ?_, hn⟩
  rw [treeTokens, List.cons_append] at hnode ⊢
  exact ofTokens?_node rfl hnode

/-- The text of an object is the object. -/
theorem recovers_object {f : String × Tree} {fs : List (String × Tree)} (h : (Tree.object (f :: fs)).Bounded) :
    Recovers (render (.object (f :: fs))) (.object (f :: fs)) := by
  obtain ⟨d, hd, hshows⟩ := ofTokens?_object h
  refine ⟨⟨d.anchors, d.root⟩, ?_, hshows⟩
  rw [read?, render_eq, tokens?_ofList, renderChars, tokenChars?_objectChars]
  simp [hd]

end Yaml

theorem recovers_render_yaml (d : Document) : Yaml.Recovers (d.render .yaml) d.encode :=
  Yaml.recovers_object d.bounded_encode

/-- A document written as YAML is read back whole, except for the places where its properties travel:
every node is what was written, a text a text and a key the key that it was, whatever they hold. -/
theorem decode_render_yaml (d : Document) : ∃ v, Yaml.read? (d.render .yaml) = some v ∧
    v.node.shows d.encode = true ∧ Document.decode v = some d.withoutLocations := by
  obtain ⟨⟨anchors, n⟩, hread, hshows⟩ := recovers_render_yaml d
  exact ⟨_, hread, hshows, d.decode_of_holds (Yaml.holds_of_shows anchors hshows)⟩

end ApiDocs
