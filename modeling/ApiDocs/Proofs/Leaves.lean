import ApiDocs.Document.Encode
import ApiDocs.Word
import Mathlib.Data.List.Basic

/-!
# Keys and scalars of a tree

What every key, text and number of a tree satisfies. The numbers of an encoded document are its bounds,
which have 64 bits.
-/

namespace ApiDocs

namespace Tree

section
variable (key text : String → Bool) (number : Int → Bool)

mutual
/-- Every key, text and number of a tree satisfies a condition. -/
def every : Tree → Bool
  | .text s => text s
  | .flag _ => true
  | .number n => number n
  | .list ts => everyItem ts
  | .object fs => everyField fs
def everyItem : List Tree → Bool
  | [] => true
  | t :: ts => every t && everyItem ts
def everyField : List (String × Tree) → Bool
  | [] => true
  | (k, t) :: fs => key k && every t && everyField fs
end

variable {key text number}

theorem everyItem_iff {ts : List Tree} :
    everyItem key text number ts = true ↔ ∀ t ∈ ts, every key text number t = true := by
  induction ts with
  | nil => simp [everyItem]
  | cons t ts ih => simp [everyItem, ih]

theorem everyField_iff {fs : List (String × Tree)} : everyField key text number fs = true ↔
    ∀ f ∈ fs, key f.1 = true ∧ every key text number f.2 = true := by
  induction fs with
  | nil => simp [everyField]
  | cons f fs ih => simp [everyField, ih]

end

/-! ## Numbers -/

def Bounded (t : Tree) : Prop :=
  every (fun _ => true) (fun _ => true) (fun n => decide (Word.Fits 64 n)) t = true

@[simp] theorem bounded_text (s : String) : Bounded (.text s) := rfl

@[simp] theorem bounded_flag (b : Bool) : Bounded (.flag b) := rfl

@[simp] theorem bounded_number (n : Int) : Bounded (.number n) ↔ Word.Fits 64 n := by
  simp [Bounded, every]

@[simp] theorem bounded_list (ts : List Tree) : Bounded (.list ts) ↔ ∀ t ∈ ts, Bounded t := by
  simp [Bounded, every, everyItem_iff]

@[simp] theorem bounded_texts (ss : List String) : Bounded (texts ss) := by
  simp [texts]

def FieldsBounded (fs : List (String × Tree)) : Prop := ∀ f ∈ fs, Bounded f.2

@[simp] theorem bounded_object (fs : List (String × Tree)) : Bounded (.object fs) ↔ FieldsBounded fs := by
  simp [Bounded, FieldsBounded, every, everyField_iff]

@[simp] theorem fieldsBounded_append (a b : List (String × Tree)) :
    FieldsBounded (a ++ b) ↔ FieldsBounded a ∧ FieldsBounded b :=
  List.forall_mem_append

@[simp] theorem fieldsBounded_map {α : Type} (l : List α) (k : α → String) (encode : α → Tree) :
    FieldsBounded (l.map fun a => (k a, encode a)) ↔ ∀ a ∈ l, Bounded (encode a) := by
  simp only [FieldsBounded, List.forall_mem_map]

@[simp] theorem fieldsBounded_field (k : String) (t : Tree) : FieldsBounded (field k t) ↔ Bounded t := by
  simp [FieldsBounded, field]

@[simp] theorem fieldsBounded_optional (k : String) (t : Option Tree) :
    FieldsBounded (optional k t) ↔ ∀ x ∈ t, Bounded x := by
  cases t <;> simp [FieldsBounded, optional]

@[simp] theorem fieldsBounded_fieldIf (shown : Bool) (k : String) (t : Tree) :
    FieldsBounded (fieldIf shown k t) ↔ (shown = true → Bounded t) := by
  cases shown <;> simp [FieldsBounded, fieldIf]

end Tree

open ApiDocs.Tree

@[simp] theorem fieldsBounded_optionalText (k : String) (s : Option String) : FieldsBounded (optionalText k s) := by
  simp [optionalText]

theorem bounded_encodeDict {α : Type} {encode : α → Tree} (h : ∀ a, Bounded (encode a)) (d : Dict α) :
    Bounded (encodeDict encode d) := by
  simp [encodeDict, h]

/-! ## Documents -/

theorem fits_of_int64 (n : Int64) : Word.Fits 64 n.toInt := by
  left
  rw [Word.signed_64_iff]
  exact ⟨n.le_toInt, by have := n.toInt_lt; omega⟩

@[simp] theorem bounded_encodeRef (reference : String) : Bounded (encodeRef reference) := by
  simp [encodeRef]

theorem Schema.bounded_encode (s : Schema) : Bounded s.encode := by
  have hproperty : ∀ p : Property, Bounded p.encode := fun p => by
    simp [Property.encode, bound, fits_of_int64]
  simp [Schema.encode, hproperty]

theorem Content.bounded_encode (c : Content) : Bounded (Content.encode c) :=
  bounded_encodeDict (fun _ => by simp) c

theorem RequestBody.bounded_encode (b : RequestBody) : Bounded b.encode := by
  simp [RequestBody.encode, Content.bounded_encode]

theorem Operation.bounded_encode (o : Operation) : Bounded o.encode := by
  have hparameter : ∀ p : Parameter, Bounded p.encode := fun p => by
    simp [Parameter.encode, ParameterSchema.encode]
  have hresponse : ∀ r : Response, Bounded r.encode := fun r => by
    simp [Response.encode, Content.bounded_encode]
  simp [Operation.encode, hparameter, Responses.encode, bounded_encodeDict, hresponse,
    RequestBody.bounded_encode]

theorem SecurityScheme.bounded_encode (s : SecurityScheme) : Bounded s.encode := by
  have hflow : ∀ f : OAuthFlow, Bounded f.encode := fun f => by
    simp [OAuthFlow.encode, bounded_encodeDict]
  cases s <;> simp [SecurityScheme.encode, OAuthFlows.encode, hflow]

theorem Document.bounded_encode (d : Document) : Bounded d.encode := by
  have hpaths : Bounded (PathRegistry.encode d.paths) :=
    bounded_encodeDict (fun i => by simp [PathItem.encode, Operation.bounded_encode]) d.paths
  have hcomponents : Bounded d.components.encode := by
    simp [Components.encode, SchemaRegistry.encode, bounded_encodeDict, Schema.bounded_encode,
      RequestBody.bounded_encode, SecurityScheme.bounded_encode]
  simp [Document.encode, Info.encode, Contact.encode, License.encode, ExternalDocs.encode, Server.encode,
    Tag.encode, hpaths, hcomponents]

end ApiDocs
