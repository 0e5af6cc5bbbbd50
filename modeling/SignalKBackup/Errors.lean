import Mathlib.Data.List.Basic
import Mathlib.Data.List.Infix

/-!
# Errors — the text of a thrown value

`errMsg` follows the errors of an `AggregateError` that has some, and the cause of any other error,
down to a depth of four.  The values form a graph, which may have cycles: `heap` says what each
reference refers to.

* `Thrown.links` are the values it goes on with: an aggregate with errors hides its own cause;
* `describe` is the recursion, with the levels that are left instead of the depth;
* `Within` says which values it comes to;
* `errMsg_within`: each of those is named in the text, and the text depends on no others.
-/

namespace SignalKBackup

universe u

inductive Thrown (ρ : Type u)
  | aggregate (message : String) (errors : List ρ) (cause : Option ρ)
  | error (message : String) (cause : Option ρ)
  /-- A value that is no `Error`, as `String(err)` writes it. -/
  | other (text : String)

variable {ρ : Type u}

namespace Thrown

/-- The values that the text of this one continues with; the cause of an aggregate with errors is none
of them. -/
def links : Thrown ρ → List ρ
  | .aggregate _ errors cause => if errors.isEmpty then cause.toList else errors
  | .error _ cause => cause.toList
  | .other _ => []

/-- What this value has to say itself. -/
def own : Thrown ρ → String
  | .aggregate message errors _ =>
      if errors.isEmpty || message != "AggregateError" then message else ""
  | .error message _ => message
  | .other text => text

end Thrown

def MAX_CAUSE_DEPTH : ℕ :=
  4

def withCause (message : String) (cause : Option String) : String :=
  match cause with
  | some cause => message ++ ": " ++ cause
  | none => message

/-- `describe(err, depth)`, where `MAX_CAUSE_DEPTH - depth` levels are left. -/
def describe (heap : ρ → Thrown ρ) : ℕ → ρ → String
  | 0, err =>
      match heap err with
      | .aggregate message errors _ =>
          if !errors.isEmpty && message = "" then "AggregateError" else message
      | .error message _ => message
      | .other text => text
  | left + 1, err =>
      match heap err with
      | .aggregate message errors cause =>
          if errors.isEmpty then withCause message (cause.map (describe heap left))
          else
            let inner := "; ".intercalate (errors.map (describe heap left))
            if message ≠ "" ∧ message ≠ "AggregateError" then message ++ ": " ++ inner else inner
      | .error message cause => withCause message (cause.map (describe heap left))
      | .other text => text

def errMsg (heap : ρ → Thrown ρ) (err : ρ) : String :=
  describe heap MAX_CAUSE_DEPTH err

/-- `e` is at most so many links away from `err`. -/
inductive Within (heap : ρ → Thrown ρ) : ℕ → ρ → ρ → Prop
  | here (n : ℕ) (err : ρ) : Within heap n err err
  | link {n : ℕ} {err next e : ρ} :
      next ∈ (heap err).links → Within heap n next e → Within heap (n + 1) err e

/-! ## What the text names -/

/-- A text is part of another. -/
def PartOf (part text : String) : Prop :=
  part.toList <:+: text.toList

theorem PartOf.refl (text : String) : PartOf text text :=
  List.infix_refl _

theorem PartOf.trans {a b c : String} (hab : PartOf a b) (hbc : PartOf b c) : PartOf a c :=
  List.IsInfix.trans hab hbc

theorem partOf_append_left (a b : String) : PartOf a (a ++ b) := by
  rw [PartOf, String.toList_append]
  exact (List.prefix_append _ _).isInfix

theorem partOf_append_right (a b : String) : PartOf b (a ++ b) := by
  rw [PartOf, String.toList_append]
  exact (List.suffix_append _ _).isInfix

theorem partOf_empty (text : String) : PartOf "" text :=
  List.nil_infix

theorem partOf_intercalate {sep text : String} {texts : List String} (h : text ∈ texts) :
    PartOf text (sep.intercalate texts) := by
  induction texts with
  | nil =>
      cases h
  | cons first rest ih =>
      cases rest with
      | nil =>
          cases List.mem_singleton.1 h
          rw [String.intercalate_singleton]
          exact .refl _
      | cons second rest =>
          rw [String.intercalate_cons_of_ne_nil (List.cons_ne_nil _ _)]
          rcases List.mem_cons.1 h with rfl | hrest
          · exact (partOf_append_left _ _).trans (partOf_append_left _ _)
          · exact (ih hrest).trans (partOf_append_right _ _)

theorem partOf_withCause (message : String) (cause : Option String) :
    PartOf message (withCause message cause) := by
  cases cause with
  | none =>
      exact .refl _
  | some cause =>
      exact (partOf_append_left _ _).trans (partOf_append_left _ _)

theorem partOf_withCause_cause (message cause : String) :
    PartOf cause (withCause message (some cause)) :=
  partOf_append_right _ _

/-- A value is named in its own text. -/
theorem own_partOf (heap : ρ → Thrown ρ) (n : ℕ) (err : ρ) :
    PartOf (heap err).own (describe heap n err) := by
  cases n with
  | zero =>
      simp only [describe]
      cases heap err with
      | aggregate message errors cause =>
          by_cases hmessage : message = ""
          · subst hmessage
            have hown : (Thrown.aggregate "" errors cause).own = "" := ite_self _
            rw [hown]
            exact partOf_empty _
          · simp only [Thrown.own, hmessage, decide_false, Bool.and_false, Bool.false_eq_true,
              if_false]
            split
            case isTrue =>
                exact .refl _
            case isFalse =>
                exact partOf_empty _
      | error message cause =>
          exact .refl _
      | other text =>
          exact .refl _
  | succ left =>
      simp only [describe]
      cases heap err with
      | aggregate message errors cause =>
          dsimp only [Thrown.own]
          split_ifs with hown hempty hmessage hempty
          · exact partOf_withCause _ _
          · exact (partOf_append_left _ _).trans (partOf_append_left _ _)
          · -- A message that is left out is empty, or the name of the class.
            have hname : message ≠ "AggregateError" := by simpa [hempty] using hown
            rw [not_and_or, not_not, not_not, or_iff_left hname] at hmessage
            rw [hmessage]
            exact partOf_empty _
          · exact partOf_empty _
          · exact partOf_empty _
          · exact partOf_empty _
      | error message cause =>
          exact partOf_withCause _ _
      | other text =>
          exact .refl _

/-- So is every value that it links to. -/
theorem describe_partOf_of_link {heap : ρ → Thrown ρ} {err next : ρ} (n : ℕ)
    (h : next ∈ (heap err).links) : PartOf (describe heap n next) (describe heap (n + 1) err) := by
  simp only [describe]
  cases herr : heap err with
  | aggregate message errors cause =>
      rw [herr] at h
      simp only [Thrown.links] at h
      dsimp only
      split
      case isTrue hempty =>
          rw [if_pos hempty] at h
          rw [Option.mem_toList.1 h]
          exact partOf_withCause_cause _ _
      case isFalse hempty =>
          rw [if_neg hempty] at h
          have hinner : PartOf (describe heap n next) ("; ".intercalate _) :=
            partOf_intercalate (List.mem_map_of_mem (f := describe heap n) h)
          split
          case isTrue =>
              exact hinner.trans (partOf_append_right _ _)
          case isFalse =>
              exact hinner
  | error message cause =>
      rw [herr] at h
      rw [Option.mem_toList.1 h]
      exact partOf_withCause_cause _ _
  | other text =>
      rw [herr] at h
      cases h

theorem describe_names {heap : ρ → Thrown ρ} {n : ℕ} {err e : ρ} (h : Within heap n err e) :
    PartOf (heap e).own (describe heap n err) := by
  induction h with
  | here n err =>
      exact own_partOf heap n err
  | link hlink _ ih =>
      exact ih.trans (describe_partOf_of_link _ hlink)

/-! ## What the text depends on -/

theorem describe_congr {heap heap' : ρ → Thrown ρ} {n : ℕ} {err : ρ}
    (h : ∀ e, Within heap n err e → heap' e = heap e) :
    describe heap' n err = describe heap n err := by
  induction n generalizing err with
  | zero =>
      simp only [describe, h err (.here 0 err)]
  | succ left ih =>
      have hlink : ∀ next ∈ (heap err).links, describe heap' left next = describe heap left next :=
        fun next hnext => ih fun e he => h e (.link hnext he)
      simp only [describe, h err (.here _ err)]
      cases herr : heap err with
      | aggregate message errors cause =>
          rw [herr] at hlink
          simp only [Thrown.links] at hlink
          dsimp only
          split
          case isTrue hempty =>
              rw [if_pos hempty] at hlink
              rw [Option.map_congr fun cause hcause => hlink cause (Option.mem_toList.2 hcause)]
          case isFalse hempty =>
              rw [if_neg hempty] at hlink
              rw [List.map_congr_left hlink]
      | error message cause =>
          rw [herr] at hlink
          dsimp only
          rw [Option.map_congr fun cause hcause => hlink cause (Option.mem_toList.2 hcause)]
      | other text =>
          rfl

/-- The text of a thrown value names whatever is up to four links away, also in a graph with cycles,
and depends on nothing that is further away. -/
theorem errMsg_within (heap : ρ → Thrown ρ) (err : ρ) :
    (∀ e, Within heap MAX_CAUSE_DEPTH err e → PartOf (heap e).own (errMsg heap err)) ∧
      ∀ heap' : ρ → Thrown ρ, (∀ e, Within heap MAX_CAUSE_DEPTH err e → heap' e = heap e) →
        errMsg heap' err = errMsg heap err :=
  ⟨fun _ => describe_names, fun _ => describe_congr⟩

/-- An error that is its own cause. -/
example : errMsg (fun _ : Unit => .error "a" (some ())) () = "a: a: a: a: a" := by
  decide

end SignalKBackup
