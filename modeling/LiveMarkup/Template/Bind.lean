import LiveMarkup.Data.Display
import LiveMarkup.Template.Path
import LiveMarkup.Template.Placeholder
import LiveMarkup.Tree.Basic

/-!
# Binding

A template is bound to data by replacing every placeholder of its texts by the text of the value
that its expression leads to. The first expression without a value fails the whole.

* `Template.interpolate`: a text bound to data.
* `Tree.bind`: a template bound to data.
* `Tree.placeholders`: the expressions of a template, in document order.
-/

namespace LiveMarkup

namespace Template

/-- A list of pieces bound to data. -/
def bindPieces (h : Heap) (data : ObjectId) : List Piece → Traced (Except BindError String)
  | [] => ⟨[], .ok ""⟩
  | .literal cs :: rest =>
    let t := bindPieces h data rest
    ⟨t.reads, t.result.map fun text => String.ofList cs ++ text⟩
  | .placeholder e :: rest =>
    let found := resolve h data (String.ofList e)
    match found.result with
    | .error err => ⟨found.reads, .error err⟩
    | .ok v =>
      let t := bindPieces h data rest
      ⟨found.reads ++ t.reads, t.result.map fun text => h.display v ++ text⟩

/-- A text bound to data. -/
def interpolate (h : Heap) (data : ObjectId) (text : String) : Traced (Except BindError String) :=
  bindPieces h data (Piece.ofText text.toList)

end Template

namespace Tree

open Template

mutual

/-- A template bound to data. The result has no handles. -/
def bind (h : Heap) (data : ObjectId) : Tree → Traced (Except BindError Tree)
  | element tag attributes children _ =>
    let t := bindList h data children
    ⟨t.reads, t.result.map fun ts => element tag attributes ts none⟩
  | text content _ =>
    let t := interpolate h data content
    ⟨t.reads, t.result.map fun content => text content none⟩

def bindList (h : Heap) (data : ObjectId) : List Tree → Traced (Except BindError (List Tree))
  | [] => ⟨[], .ok []⟩
  | t :: ts =>
    let first := t.bind h data
    match first.result with
    | .error err => ⟨first.reads, .error err⟩
    | .ok b =>
      let others := bindList h data ts
      ⟨first.reads ++ others.reads, others.result.map fun bs => b :: bs⟩

end

mutual

/-- The expressions of a template, in document order. -/
def placeholders : Tree → List String
  | element _ _ children _ => placeholdersList children
  | text content _ => Template.placeholders content

def placeholdersList : List Tree → List String
  | [] => []
  | t :: ts => t.placeholders ++ placeholdersList ts

end

end Tree

end LiveMarkup
