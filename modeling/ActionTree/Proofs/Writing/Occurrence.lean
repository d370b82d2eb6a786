import ActionTree.Proofs.Writing.Pieces

/-!
# Where nodes stand in a text

* `Piece.EachBefore` - what holds of each part and the pieces behind it;
* `Node.Writes` - a node stands in the text of a tree, with a text before it and one behind it;
* `Node.Writes.chars_eq` - together they are the text of the tree;
* `Node.asWritten` - the node under copies and conversions that leave no trace in the text.
-/

namespace ActionTree

/-! ### Parts and what follows them -/

namespace Piece

/-- The text before a part that is in parentheses or not. -/
def opening (grouped : Bool) : List Char := if grouped then ['('] else []

/-- The text behind such a part. -/
def closing (grouped : Bool) : List Char := if grouped then [')'] else []

theorem chars_part (locals : Locals) (grouped : Bool) (n : Node) :
    (part grouped n).chars locals = opening grouped ++ n.chars locals ++ closing grouped := by
  cases grouped with
  | true => rfl
  | false => simp [opening, closing, chars]

/-- What `p` says of every part and of the pieces behind it. -/
def EachBefore (p : Bool → Node → List Piece → Prop) : List Piece → Prop
  | [] => True
  | own _ :: rest => EachBefore p rest
  | part grouped n :: rest => p grouped n rest ∧ EachBefore p rest

section EachBefore

variable {p : Bool → Node → List Piece → Prop}

@[simp] theorem eachBefore_nil : EachBefore p [] := trivial

@[simp] theorem eachBefore_own {texts : List String} {rest : List Piece} :
    EachBefore p (own texts :: rest) ↔ EachBefore p rest := Iff.rfl

@[simp] theorem eachBefore_part {grouped : Bool} {n : Node} {rest : List Piece} :
    EachBefore p (part grouped n :: rest) ↔ p grouped n rest ∧ EachBefore p rest := Iff.rfl

@[simp] theorem eachBefore_append {ps qs : List Piece} :
    EachBefore p (ps ++ qs) ↔
      EachBefore (fun grouped n rest => p grouped n (rest ++ qs)) ps ∧ EachBefore p qs := by
  induction ps with
  | nil => simp
  | cons piece ps ih =>
    cases piece with
    | own texts => simpa using ih
    | part grouped n => simp [ih, and_assoc]

theorem EachBefore.of_split {ps qs : List Piece} {grouped : Bool} {n : Node}
    (h : EachBefore p (ps ++ part grouped n :: qs)) : p grouped n qs :=
  (eachBefore_part.1 (eachBefore_append.1 h).2).1

end EachBefore

end Piece

open Piece

namespace Node

variable {locals : Locals}

/-! ### Nodes in a text -/

/-- A node stands in the text of a tree, between two other texts. -/
inductive Writes (locals : Locals) : Node → Node → List Char → List Char → Prop
  | root (n : Node) : Writes locals n n [] []
  | part {k : Kind Node} {o : Origin} {ps qs : List Piece} {grouped : Bool} {c m : Node}
      {before after : List Char} (hpieces : k.pieces locals = ps ++ .part grouped c :: qs)
      (hpart : Writes locals c m before after) :
      Writes locals ⟨k, o⟩ m (rowChars locals ps ++ opening grouped ++ before)
        (after ++ closing grouped ++ rowChars locals qs)

/-- The text of a tree is that of the node, and what stands before and behind it. -/
theorem Writes.chars_eq {n m : Node} {before after : List Char}
    (h : n.Writes locals m before after) :
    n.chars locals = before ++ m.chars locals ++ after := by
  induction h with
  | root n => simp
  | part hpieces _ ih =>
    rw [chars_pieces, hpieces, rowChars_append, rowChars_cons, chars_part, ih]
    simp only [List.append_assoc]

theorem Writes.trans {n m l : Node} {before after before' after' : List Char}
    (h : n.Writes locals m before after) (h' : m.Writes locals l before' after') :
    n.Writes locals l (before ++ before') (after' ++ after) := by
  induction h with
  | root n => simpa using h'
  | @part k o ps qs grouped c m before after hpieces _ ih =>
    have hpart := Writes.part (o := o) hpieces (ih h')
    simpa only [List.append_assoc] using hpart

/-- What stands in the text stands in the tree. -/
theorem Writes.contains {n m : Node} {before after : List Char}
    (h : n.Writes locals m before after) : n.Contains m := by
  induction h with
  | root n => exact .refl
  | @part k o ps qs grouped c m before after hpieces _ ih =>
    have hpiece : .part grouped c ∈ k.pieces locals := by
      rw [hpieces]
      simp
    exact ih.head (Kind.mem_parts_of_mem_pieces locals hpiece)

/-- A part that is written like the node itself. -/
theorem Writes.of_single {k : Kind Node} {o : Origin} {c : Node}
    (h : k.pieces locals = [.part false c]) : Writes locals ⟨k, o⟩ c [] [] := by
  have hsplit : k.pieces locals = [] ++ .part false c :: [] := h
  exact .part hsplit (.root c)

theorem chars_of_single {k : Kind Node} {o : Origin} {v : Node}
    (h : k.pieces locals = [.part false v]) : chars locals ⟨k, o⟩ = v.chars locals := by
  simpa using (Writes.of_single (o := o) h).chars_eq

/-! ### Copies and conversions that are not written -/

/-- The node under copies and conversions that leave no trace in the text. -/
def asWritten : Node → Node
  | ⟨.duplicate v, _⟩ => v.asWritten
  | ⟨.coerce _ v, _⟩ => v.asWritten
  | ⟨.convert t v, o⟩ => if v.showsConversion t then ⟨.convert t v, o⟩ else v.asWritten
  | n => n

/-- It is the text of the node that is written, at the node's level. -/
theorem writes_asWritten (locals : Locals) (n : Node) :
    n.Writes locals n.asWritten [] [] ∧ n.asWritten.precedence = n.precedence := by
  induction n using induct with
  | step k o ih =>
    cases k with
    | duplicate v =>
      obtain ⟨hwrites, hlevel⟩ := ih v (by simp [Kind.parts, Kind.children])
      exact ⟨(Writes.of_single rfl).trans hwrites, hlevel⟩
    | coerce t v =>
      obtain ⟨hwrites, hlevel⟩ := ih v (by simp [Kind.parts, Kind.children])
      exact ⟨(Writes.of_single rfl).trans hwrites, hlevel⟩
    | convert t v =>
      obtain ⟨hwrites, hlevel⟩ := ih v (by simp [Kind.parts, Kind.children])
      rw [asWritten]
      split_ifs with hshown
      · exact ⟨.root _, rfl⟩
      · exact ⟨(Writes.of_single (by rw [Kind.pieces, if_neg hshown])).trans hwrites, hlevel⟩
    | _ => exact ⟨.root _, rfl⟩

end Node

end ActionTree
