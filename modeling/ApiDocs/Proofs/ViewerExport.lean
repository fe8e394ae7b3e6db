import ApiDocs.Proofs.DiskGrowth
import ApiDocs.Viewer

/-!
# Exports of a viewer

An export keeps every file. What it writes are the assets that it can fetch and then the page, each only
where nothing was, so that an export after a finished one changes nothing.
-/

namespace ApiDocs

namespace Disk

/-! ## Paths of entries -/

theorem parts_join {path name : String} (hn : IsName name) (hpath : path ≠ "") :
    ∃ ps, Text.parts '/' (Path.join path name) = ps ++ [name] ∧
      (Text.parts '/' path = ps ∨ Text.parts '/' path = ps ++ [""]) := by
  rcases join_of_isName path hn hpath with ⟨stem, rfl, hj⟩ | hj
  · refine ⟨Text.parts '/' stem, by rw [hj, Text.parts_slash _ hn.2.1], .inr ?_⟩
    have h := Text.parts_slash stem (show '/' ∉ "".toList by simp)
    rwa [String.append_empty] at h
  · exact ⟨Text.parts '/' path, by rw [hj, Text.parts_slash _ hn.2.1], .inl rfl⟩

theorem join_ne {path name : String} (hn : IsName name) : Path.join path name ≠ "" := by
  by_cases hpath : path = ""
  · subst hpath
    have hname : Path.join "" name = name := by simp [Path.join]
    rw [hname]
    exact hn.1
  · rcases join_of_isName path hn hpath with ⟨stem, -, hj⟩ | hj <;> simp [hj]

theorem start_join (d : Disk) {path name : String} (hn : IsName name) (hpath : path ≠ "") :
    d.start (Path.join path name) = d.start path := by
  rcases join_of_isName path hn hpath with ⟨stem, rfl, hj⟩ | hj
  · rw [hj, start_append d hpath]
  · rw [hj, String.append_assoc, start_append d hpath]

/-- A path that ends in a name leads to an entry of the directory that the path before it leads to. -/
theorem locate_of_join {d : Disk} {path name : String} {place : List String} (hn : IsName name) (hpath : path ≠ "")
    (h : d.locate (Path.join path name) = .ok place) :
    ∃ parent, d.locate path = .ok parent ∧ d.kindAt parent = some .directory ∧ place = parent ++ [name] := by
  obtain ⟨ps, hjoin, hparts⟩ := parts_join hn hpath
  rw [locate_of_ne (join_ne hn), start_join d hn hpath, hjoin, follow_append] at h
  cases hf : d.follow (d.start path) ps with
  | error e =>
    rw [hf] at h
    cases h
  | ok parent =>
    rw [hf, Except.bind] at h
    obtain ⟨hadmits, -, hplace⟩ := follow_cons.mp h
    obtain ⟨hne, -, hdot, hdots⟩ := hn
    have hdir := hadmits.directory hne
    rw [next, if_neg (by simp [hne, hdot]), if_neg hdots, follow] at hplace
    refine ⟨parent, ?_, hdir, (Except.ok.inj hplace).symm⟩
    rw [locate_of_ne hpath]
    rcases hparts with hparts | hparts
    · rw [hparts, hf]
    · rw [hparts, follow_concat_blank]
      exact ⟨hf, .inl hdir⟩

end Disk

namespace Viewer

open Disk

/-! ## Files of an export -/

def assetsPath (c : ViewerConfig) : String := Path.join c.exportPath assetsDirectory
def cssPath (c : ViewerConfig) : String := Path.join (assetsPath c) cssFileName
def jsPath (c : ViewerConfig) : String := Path.join (assetsPath c) jsFileName
def pagePath (c : ViewerConfig) : String := Path.join c.exportPath (pageName c)

theorem isName_assets : IsName assetsDirectory ∧ IsName cssFileName ∧ IsName jsFileName := by
  unfold IsName
  decide

/-- A file that an export leaves where nothing was: an asset as it was fetched, or the page when both assets
are there. -/
inductive IsNewFile (fetch : Fetch) (c : ViewerConfig) (fileName : String) (after : Disk) :
    List String → ByteArray → Prop
  | css {place content} (hl : after.locate (cssPath c) = .ok place) (h : fetch cssUrl = some content) :
      IsNewFile fetch c fileName after place content
  | js {place content} (hl : after.locate (jsPath c) = .ok place) (h : fetch jsUrl = some content) :
      IsNewFile fetch c fileName after place content
  | page {place} (hl : after.locate (pagePath c) = .ok place) (hcss : after.contains (cssPath c) = true)
      (hjs : after.contains (jsPath c) = true) :
      IsNewFile fetch c fileName after place (Viewer.page c.title (.ofServed c.serveUri fileName)).toUTF8

/-- What an export adds to a disk: such files, and directories that are named in the path of the assets. -/
inductive IsNew (fetch : Fetch) (c : ViewerConfig) (fileName : String) (after : Disk) : List String → Kind → Prop
  | file {place content} (h : IsNewFile fetch c fileName after place content) :
      IsNew fetch c fileName after place (.file content)
  | directory {place kind} (h : IsPartOf (assetsPath c) place kind) : IsNew fetch c fileName after place kind

variable {fetch : Fetch} {c : ViewerConfig} {fileName : String}

theorem IsNewFile.mono {made : List String → Kind → Prop} {d d' : Disk} (h : Grows made d d') {place : List String}
    {content : ByteArray} (hnew : IsNewFile fetch c fileName d place content) :
    IsNewFile fetch c fileName d' place content := by
  cases hnew with
  | css hl hf => exact .css (h.locate hl) hf
  | js hl hf => exact .js (h.locate hl) hf
  | page hl hcss hjs => exact .page (h.locate hl) (h.contains hcss) (h.contains hjs)

theorem IsNew.mono {made : List String → Kind → Prop} {d d' : Disk} (h : Grows made d d') (place : List String)
    (kind : Kind) (hnew : IsNew fetch c fileName d place kind) : IsNew fetch c fileName d' place kind := by
  cases hnew with
  | file hfile => exact .file (hfile.mono h)
  | directory hdir => exact .directory hdir

/-! ## Steps of an export -/

theorem grows_writeFile {d d' : Disk} {path : String} {content : ByteArray} {result : Except ExportError Unit}
    (hc : d.contains path = false) (h : writeFile path content d = (result, d')) :
    Grows (fun place kind => d'.locate path = .ok place ∧ kind = .file content) d d' ∧
      (result = .ok () → d'.contains path = true) := by
  unfold writeFile at h
  split at h
  · rename_i d'' hwrite
    obtain ⟨rfl, rfl⟩ := Prod.mk.inj h
    obtain ⟨place, hl, hgrows⟩ := grows_write hc hwrite
    refine ⟨hgrows.mono ?_, fun _ => contains_iff.mpr ⟨place, hl⟩⟩
    rintro q kind ⟨rfl, hkind⟩
    exact ⟨hl, hkind⟩
  · obtain ⟨rfl, rfl⟩ := Prod.mk.inj h
    exact ⟨Grows.refl _ _, nofun⟩

theorem grows_writeAsset {d d' : Disk} {path url : String} {result : Except ExportError Unit}
    (h : writeAsset fetch path url d = (result, d')) :
    Grows (fun place kind => d'.locate path = .ok place ∧ ∃ content, fetch url = some content ∧ kind = .file content) d d' ∧
      (result = .ok () → d'.contains path = true) := by
  unfold writeAsset at h
  split at h
  · rename_i hc
    obtain ⟨rfl, rfl⟩ := Prod.mk.inj h
    exact ⟨Grows.refl _ _, fun _ => hc⟩
  · rename_i hc
    split at h
    · rename_i content hfetch
      obtain ⟨hgrows, hthere⟩ := grows_writeFile (by simpa using hc) h
      exact ⟨hgrows.mono fun place kind ⟨hl, hkind⟩ => ⟨hl, content, hfetch, hkind⟩, hthere⟩
    · obtain ⟨rfl, rfl⟩ := Prod.mk.inj h
      exact ⟨Grows.refl _ _, nofun⟩

theorem grows_writePage {d d' : Disk} {result : Except ExportError Unit} (h : writePage c fileName d = (result, d')) :
    Grows (fun place kind => d'.locate (pagePath c) = .ok place ∧
      kind = .file (page c.title (.ofServed c.serveUri fileName)).toUTF8) d d' ∧
      (result = .ok () → d'.contains (pagePath c) = true) := by
  unfold writePage at h
  dsimp only at h
  split at h
  · rename_i hc
    obtain ⟨rfl, rfl⟩ := Prod.mk.inj h
    exact ⟨Grows.refl _ _, fun _ => hc⟩
  · rename_i hc
    exact grows_writeFile (Bool.eq_false_iff.mpr hc) h

/-- An export that is done has gone through all its steps. -/
theorem exportTo_ok {d after : Disk} (h : exportTo fetch c fileName d = (.ok (), after)) :
    ∃ d₁ d₂ d₃, d.makeDirectories (assetsPath c) = (.ok (), d₁) ∧
      writeAsset fetch (cssPath c) cssUrl d₁ = (.ok (), d₂) ∧ writeAsset fetch (jsPath c) jsUrl d₂ = (.ok (), d₃) ∧
      writePage c fileName d₃ = (.ok (), after) := by
  unfold exportTo at h
  dsimp only at h
  split at h
  · cases h
  · rename_i d₁ hmake
    split at h
    · cases h
    · rename_i d₂ hcss
      split at h
      · cases h
      · rename_i d₃ hjs
        exact ⟨d₁, d₂, d₃, hmake, hcss, hjs, h⟩

def Adds (fetch : Fetch) (c : ViewerConfig) (fileName : String) (d d' : Disk) : Prop :=
  Grows (IsNew fetch c fileName d') d d'

theorem Adds.trans {d d' d'' : Disk} (h : Adds fetch c fileName d d') (h' : Adds fetch c fileName d' d'') :
    Adds fetch c fileName d d'' :=
  Grows.trans (Grows.mono h (IsNew.mono h')) h'

theorem adds_makeDirectories (d : Disk) : Adds fetch c fileName d (d.makeDirectories (assetsPath c)).2 :=
  (grows_makeDirectories d _).mono fun _ _ => .directory

theorem adds_css {d d' : Disk} {result : Except ExportError Unit}
    (h : writeAsset fetch (cssPath c) cssUrl d = (result, d')) : Adds fetch c fileName d d' := by
  refine (grows_writeAsset h).1.mono ?_
  rintro place kind ⟨hl, content, hfetch, rfl⟩
  exact .file (.css hl hfetch)

theorem adds_js {d d' : Disk} {result : Except ExportError Unit}
    (h : writeAsset fetch (jsPath c) jsUrl d = (result, d')) : Adds fetch c fileName d d' := by
  refine (grows_writeAsset h).1.mono ?_
  rintro place kind ⟨hl, content, hfetch, rfl⟩
  exact .file (.js hl hfetch)

theorem adds_page {d d' : Disk} {result : Except ExportError Unit} (hcss : d.contains (cssPath c) = true)
    (hjs : d.contains (jsPath c) = true) (h : writePage c fileName d = (result, d')) : Adds fetch c fileName d d' := by
  have hgrows := (grows_writePage h).1
  refine hgrows.mono ?_
  rintro place kind ⟨hl, rfl⟩
  exact .file (.page hl (hgrows.contains hcss) (hgrows.contains hjs))

/-- A finished or failed export has added to the disk step by step. -/
theorem adds_exportTo {d after : Disk} {result : Except ExportError Unit}
    (h : exportTo fetch c fileName d = (result, after)) : Adds fetch c fileName d after := by
  have hdirs : Adds fetch c fileName d (d.makeDirectories (assetsPath c)).2 := adds_makeDirectories d
  unfold exportTo at h
  dsimp only at h
  unfold assetsPath at hdirs
  split at h
  · rename_i cause d₁ hmake
    obtain ⟨-, rfl⟩ := Prod.mk.inj h
    rwa [hmake] at hdirs
  · rename_i d₁ hmake
    rw [hmake] at hdirs
    split at h
    · rename_i e d₂ hcss
      obtain ⟨-, rfl⟩ := Prod.mk.inj h
      exact hdirs.trans (adds_css hcss)
    · rename_i d₂ hcss
      have hassets := hdirs.trans (adds_css hcss)
      split at h
      · rename_i e d₃ hjs
        obtain ⟨-, rfl⟩ := Prod.mk.inj h
        exact hassets.trans (adds_js hjs)
      · rename_i d₃ hjs
        have hkept := (grows_writeAsset hjs).1
        have hthere := hkept.contains ((grows_writeAsset hcss).2 rfl)
        exact (hassets.trans (adds_js hjs)).trans (adds_page hthere ((grows_writeAsset hjs).2 rfl) h)

/-! ## Finished exports -/

/-- After a finished export both assets and the page are there. -/
theorem contains_of_exportTo {d after : Disk} (h : exportTo fetch c fileName d = (.ok (), after)) :
    after.contains (cssPath c) = true ∧ after.contains (jsPath c) = true ∧ after.contains (pagePath c) = true := by
  obtain ⟨d₁, d₂, d₃, -, hcss, hjs, hpage⟩ := exportTo_ok h
  obtain ⟨-, hcss⟩ := grows_writeAsset hcss
  obtain ⟨hjsGrows, hjs⟩ := grows_writeAsset hjs
  obtain ⟨hpageGrows, hpage⟩ := grows_writePage hpage
  exact ⟨hpageGrows.contains (hjsGrows.contains (hcss rfl)), hpageGrows.contains (hjs rfl), hpage rfl⟩

/-- Where the assets and the page are, there is nothing to do. -/
theorem exportTo_of_contains {d : Disk} (hcss : d.contains (cssPath c) = true) (hjs : d.contains (jsPath c) = true)
    (hpage : d.contains (pagePath c) = true) : exportTo fetch c fileName d = (.ok (), d) := by
  have hassets : d.isDirectory (assetsPath c) = true := by
    obtain ⟨place, hl⟩ := contains_iff.mp hcss
    obtain ⟨parent, hl, hdir, -⟩ := locate_of_join isName_assets.2.1 (join_ne isName_assets.1) hl
    exact isDirectory_iff.mpr ⟨parent, hl, .inl hdir⟩
  have hmake := makeDirectories_of_isDirectory hassets
  unfold exportTo
  unfold assetsPath at hmake
  unfold cssPath assetsPath at hcss
  unfold jsPath assetsPath at hjs
  unfold pagePath at hpage
  simp only [hmake, writeAsset, hcss, hjs, writePage, hpage, if_true]

/-! ## Exports without downloads -/

theorem writeAsset_none {path url : String} {d d' : Disk} (hfetch : fetch url = none)
    (h : writeAsset fetch path url d = (.ok (), d')) : d.contains path = true ∧ d' = d := by
  unfold writeAsset at h
  split at h
  · rename_i hc
    exact ⟨hc, (Prod.mk.inj h).2.symm⟩
  · rw [hfetch] at h
    cases h

/-- An asset that is there once the directories are made was there before, or is one of them. -/
theorem asset_of_makeDirectories {d d₁ : Disk} {name : String} (hn : IsName name) (hne : name ≠ assetsDirectory)
    (hmake : d.makeDirectories (assetsPath c) = (.ok (), d₁))
    (hc : d₁.contains (Path.join (assetsPath c) name) = true) :
    ∃ place, d₁.locate (Path.join (assetsPath c) name) = .ok place ∧ ((d.kindAt place).isSome ∨
      d₁.kindAt place = some .directory ∧ name ∈ Text.parts '/' c.exportPath) := by
  obtain ⟨place, hl⟩ := contains_iff.mp hc
  refine ⟨place, hl, ?_⟩
  obtain ⟨kind, hkind⟩ := Option.isSome_iff_exists.mp (exists_of_locate hl)
  cases hbefore : d.kindAt place with
  | some _ => exact .inl rfl
  | none =>
    have hgrows := grows_makeDirectories d (assetsPath c)
    rw [hmake] at hgrows
    obtain ⟨rfl, part, hpart, -, hlast⟩ := hgrows.new hkind hbefore
    obtain ⟨parent, -, -, rfl⟩ := locate_of_join hn (join_ne isName_assets.1) hl
    have hname : part = name := by simpa using hlast.symm
    subst hname
    refine .inr ⟨hkind, ?_⟩
    -- the last part of the path is the name of the assets directory
    by_cases hexport : c.exportPath = ""
    · have hparts : Text.parts '/' (assetsPath c) = [assetsDirectory] := by
        rw [assetsPath, hexport]
        decide
      rw [hparts] at hpart
      exact absurd (List.mem_singleton.mp hpart) hne
    · obtain ⟨ps, hjoin, hparts⟩ := parts_join isName_assets.1 hexport
      rw [assetsPath, hjoin] at hpart
      have hmem : part ∈ ps := by simpa [hne] using hpart
      rcases hparts with hparts | hparts <;> simp [hparts, hmem]

/-- **What an export does to a disk.** Done or failed, it keeps every file. A file that is new is an asset as it
was fetched, or the page, and the page only where both assets are there. After an export that is done, every
export to the same page is done with no change. Without downloads an export is done only if each asset was there
before, or is a directory that the export made because its name is a part of the path to export to. -/
theorem exportTo_keeps_files (fetch : Fetch) (c : ViewerConfig) (fileName : String) (d : Disk) :
    ∃ result after, exportTo fetch c fileName d = (result, after) ∧
      (∀ place content, d.root.find? place = some (.file content) → after.root.find? place = some (.file content)) ∧
      (∀ place content, after.root.find? place = some (.file content) → d.root.find? place = some (.file content) ∨
        d.root.find? place = none ∧ IsNewFile fetch c fileName after place content) ∧
      (result = .ok () → ∀ (fetch' : Fetch) (c' : ViewerConfig) (fileName' : String), c'.exportPath = c.exportPath →
        pageName c' = pageName c → exportTo fetch' c' fileName' after = (.ok (), after)) ∧
      (result = .ok () → (∀ url, fetch url = none) → ∀ name ∈ [cssFileName, jsFileName],
        ∃ place, after.locate (Path.join (assetsPath c) name) = .ok place ∧ ((d.root.find? place).isSome ∨
          (∃ children, after.root.find? place = some (.directory children)) ∧
            name ∈ Text.parts '/' c.exportPath)) := by
  rcases hexport : exportTo fetch c fileName d with ⟨result, after⟩
  have hadds := adds_exportTo hexport
  refine ⟨result, after, rfl, fun place content hfile => ?_, fun place content hfile => ?_, ?_, ?_⟩
  · exact kindAt_file.mp (hadds.kept (kindAt_file.mpr hfile))
  · cases hbefore : d.kindAt place with
    | some kind =>
      have hsame := hadds.kept hbefore
      rw [kindAt_file.mpr hfile] at hsame
      rw [← hsame] at hbefore
      exact .inl (kindAt_file.mp hbefore)
    | none =>
      refine .inr ⟨kindAt_none.mp hbefore, ?_⟩
      cases hadds.new (kindAt_file.mpr hfile) hbefore with
      | file hnew => exact hnew
      | directory hdir => exact absurd hdir.1 (by simp)
  · rintro rfl fetch' c' fileName' hpath hname
    obtain ⟨hcss, hjs, hpage⟩ := contains_of_exportTo hexport
    have hcss' : cssPath c' = cssPath c := by rw [cssPath, assetsPath, hpath]; rfl
    have hjs' : jsPath c' = jsPath c := by rw [jsPath, assetsPath, hpath]; rfl
    have hpage' : pagePath c' = pagePath c := by rw [pagePath, hpath, hname]; rfl
    rw [← hcss'] at hcss
    rw [← hjs'] at hjs
    rw [← hpage'] at hpage
    exact exportTo_of_contains hcss hjs hpage
  · rintro rfl hfetch name hname
    obtain ⟨d₁, d₂, d₃, hmake, hcss, hjs, hpage⟩ := exportTo_ok hexport
    obtain ⟨hcss, rfl⟩ := writeAsset_none (hfetch _) hcss
    obtain ⟨hjs, rfl⟩ := writeAsset_none (hfetch _) hjs
    have hasset : ∃ place, d₃.locate (Path.join (assetsPath c) name) = .ok place ∧ ((d.kindAt place).isSome ∨
        d₃.kindAt place = some .directory ∧ name ∈ Text.parts '/' c.exportPath) := by
      rcases List.mem_pair.mp hname with rfl | rfl
      · exact asset_of_makeDirectories isName_assets.2.1 (by decide) hmake hcss
      · exact asset_of_makeDirectories isName_assets.2.2 (by decide) hmake hjs
    obtain ⟨place, hl, hasset⟩ := hasset
    have hgrows := (grows_writePage hpage).1
    refine ⟨place, hgrows.locate hl, ?_⟩
    rw [← Option.isSome_map (f := Entry.kind), ← kindAt_directory]
    exact hasset.imp id fun h => ⟨hgrows.kept h.1, h.2⟩

def windingConfig : ViewerConfig where
  exportPath := "assets/swagger-ui.css/../swagger-ui-bundle.js/../.."

def bareDisk : Disk := { root := .directory [], here := [] }

/-- On an empty disk, without downloads, an export to that path is done. -/
theorem exportTo_through_assets :
    (∀ name names, bareDisk.root.find? (name :: names) = none) ∧
      bareDisk.contains (cssPath windingConfig) = false ∧ bareDisk.contains (jsPath windingConfig) = false ∧
      (exportTo (fun _ => none) windingConfig "openapi.yaml" bareDisk).1 = .ok () := by
  have hbare : ∀ name names, bareDisk.root.find? (name :: names) = none := fun _ _ => rfl
  have hmissing : ∀ name, IsName name →
      bareDisk.contains (Path.join (assetsPath windingConfig) name) = false := by
    intro name hn
    rw [Bool.eq_false_iff]
    intro hc
    obtain ⟨place, hl⟩ := contains_iff.mp hc
    have hthere := exists_of_locate hl
    obtain ⟨parent, -, -, rfl⟩ := locate_of_join hn (join_ne isName_assets.1) hl
    obtain ⟨first, rest, hplace⟩ := List.exists_cons_of_ne_nil (List.concat_ne_nil name parent)
    rw [hplace, kindAt, hbare] at hthere
    cases hthere
  exact ⟨hbare, hmissing _ isName_assets.2.1, hmissing _ isName_assets.2.2, by decide +kernel⟩

end Viewer

end ApiDocs
