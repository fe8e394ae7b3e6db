import ApiDocs.Proofs.Findings
import ApiDocs.Proofs.Yaml.FlowTrees
import ApiDocs.Proofs.YamlText

/-!
# Findings in both formats

What is found wrong with a document does not depend on the format of its text, as long as the document
reads back from both. From YAML every document does. JSON is read as YAML too, and there a text must not
hold a character that JSON writes as it is and YAML does not admit or takes for the end of a line, and a
key must not be too long.
-/

namespace ApiDocs

theorem recovers_render_json {d : Document} (h : d.encode.isPortable = true) :
    Yaml.Recovers (d.render .json) d.encode :=
  Yaml.recovers_json d.bounded_encode h

/-- A portable document has the same findings in both formats, and its JSON text can be parsed. -/
theorem validate_render_agree (d : Document) (h : d.encode.isPortable = true) :
    validate (d.render .json) = validate (d.render .yaml) ∧ .unparseable ∉ validate (d.render .json) := by
  have hjson := validate_of_recovers (recovers_render_json h)
  have hyaml := validate_of_recovers (recovers_render_yaml d)
  refine ⟨hjson.trans hyaml.symm, ?_⟩
  rw [hjson, d.mem_findings_outline]
  exact id

def quotedDocument : Document where
  openapi := "3"
  info := { title := "null: \"1\" # \\\n\t", version := "1e3" }
  paths := Dict.empty.insert "u" { get := some { responses := Dict.empty.insert "200" { description := "~" } } }

theorem validate_render_agree_quoted : quotedDocument.encode.isPortable = true ∧
    (validate (quotedDocument.render .json) = validate (quotedDocument.render .yaml) ∧
      .unparseable ∉ validate (quotedDocument.render .json)) := by
  have h : quotedDocument.encode.isPortable = true := by decide
  exact ⟨h, validate_render_agree _ h⟩

/-- A character that is not admitted makes the whole text unparseable. -/
theorem validate_of_not_admitted {cs : List Char} (h : cs.all Yaml.isAdmitted = false) :
    validate (String.ofList cs) = [.unparseable] := by
  have htokens : Yaml.tokenChars? cs = none := by
    rw [Yaml.tokenChars?, h, if_neg Bool.false_ne_true]
  rw [validate, Yaml.read?, Yaml.tokens?_ofList, htokens]
  rfl

def deleteDocument : Document where
  openapi := "3"
  info := { title := String.ofList [Char.ofNat 0x7F], version := "1" }

/-- The same document is unparseable as JSON and has no defect as YAML. -/
theorem validate_render_delete : validate (deleteDocument.render .json) = [.unparseable] ∧
    validate (deleteDocument.render .yaml) = [] := by
  constructor
  · have hdelete : (Json.chars 0 deleteDocument.encode).all Yaml.isAdmitted = false := by decide
    exact validate_of_not_admitted hdelete
  · rw [validate_of_recovers (recovers_render_yaml _)]
    decide

end ApiDocs
