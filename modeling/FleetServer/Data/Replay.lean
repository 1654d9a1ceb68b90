import Mathlib.Data.List.Induction

/-!
# What a log of writes leaves

An entry of a log gives some items and loses others.  After the whole log an item
is there when some entry gave it and none after that entry lost it, or when it
was there before and nothing lost it.
-/

namespace FleetServer
namespace Replay

variable {Entry Item : Type} {gives loses : Entry -> Item -> Prop}

def replay (gives loses : Entry -> Item -> Prop) :
    List Entry -> (Item -> Prop) -> Item -> Prop
  | [], before => before
  | e :: rest, before =>
      replay gives loses rest fun a => gives e a ∨ (before a ∧ Not (loses e a))

def Stands (gives loses : Entry -> Item -> Prop) (log : List Entry) (a : Item) : Prop :=
  exists front e back, log = front ++ e :: back ∧ gives e a ∧
    forall later, later ∈ back -> Not (loses later a)

variable {log : List Entry} {before before' : Item -> Prop} {a : Item}

theorem replay_append (front back : List Entry) (before : Item -> Prop) :
    replay gives loses (front ++ back) before
      = replay gives loses back (replay gives loses front before) := by
  induction front generalizing before with
  | nil => rfl
  | cons e rest ih => exact ih _

theorem replay_congr (h : forall a, before a <-> before' a) :
    replay gives loses log before a <-> replay gives loses log before' a := by
  have hsame : before = before' := by
    funext a
    exact propext (h a)
  rw [hsame]

theorem not_replay (hgives : forall e, e ∈ log -> Not (gives e a)) (hbefore : Not (before a)) :
    Not (replay gives loses log before a) := by
  induction log generalizing before with
  | nil => exact hbefore
  | cons e rest ih =>
      apply ih
      · intro later hlater
        exact hgives later (List.mem_cons_of_mem _ hlater)
      · intro hnow
        rcases hnow with hnow | hnow
        · exact hgives e List.mem_cons_self hnow
        · exact hbefore hnow.1

theorem not_stands_nil : Not (Stands gives loses [] a) := by
  rintro ⟨front, e, back, hlog, _⟩
  cases front with
  | nil => cases hlog
  | cons first rest => cases hlog

theorem stands_concat {e : Entry} :
    Stands gives loses (log ++ [e]) a <->
      gives e a ∨ (Stands gives loses log a ∧ Not (loses e a)) := by
  constructor
  · rintro ⟨front, first, back, hlog, hgives, hkept⟩
    rcases List.eq_nil_or_concat back with rfl | ⟨back', last, rfl⟩
    · have hlast := List.append_inj_right' hlog rfl
      cases hlast
      exact Or.inl hgives
    · rw [List.concat_eq_append] at hlog hkept
      have hcut : log ++ [e] = (front ++ first :: back') ++ [last] := by
        rw [hlog, List.append_assoc]
        rfl
      have hfront := List.append_inj_left' hcut rfl
      have hlast := List.append_inj_right' hcut rfl
      cases hlast
      refine Or.inr ⟨⟨front, first, back', hfront, hgives, ?_⟩, ?_⟩
      · intro later hlater
        exact hkept later (List.mem_append_left _ hlater)
      · exact hkept e (List.mem_append_right _ List.mem_cons_self)
  · rintro (hgives | ⟨⟨front, first, back, rfl, hgives, hkept⟩, hlast⟩)
    · refine ⟨log, e, [], rfl, hgives, ?_⟩
      intro later hlater
      cases hlater
    · refine ⟨front, first, back ++ [e], ?_, hgives, ?_⟩
      · rw [List.append_assoc]
        rfl
      · intro later hlater
        rcases List.mem_append.mp hlater with hlater | hlater
        · exact hkept later hlater
        · rw [List.mem_singleton.mp hlater]
          exact hlast

theorem replay_none : replay gives loses log (fun _ => False) a <-> Stands gives loses log a := by
  induction log using List.reverseRecOn generalizing a with
  | nil => exact ⟨False.elim, not_stands_nil⟩
  | append_singleton log e ih =>
      rw [replay_append, stands_concat]
      show gives e a ∨ (replay gives loses log (fun _ => False) a ∧ Not (loses e a)) <-> _
      rw [ih]

/-- A relation that follows every entry, over states that keep an invariant, follows
the log. -/
theorem replay_step {State : Type} {apply_ : State -> Entry -> State} {Inv : State -> Prop}
    {holds : State -> Item -> Prop}
    (hinv : forall s e, Inv s -> Inv (apply_ s e))
    (hstep : forall s e a, Inv s ->
      (holds (apply_ s e) a <-> gives e a ∨ (holds s a ∧ Not (loses e a))))
    (s : State) (hs : Inv s) :
    holds (log.foldl apply_ s) a <-> replay gives loses log (holds s) a := by
  induction log generalizing s with
  | nil => exact Iff.rfl
  | cons e rest ih =>
      show holds (rest.foldl apply_ (apply_ s e)) a <-> _
      rw [ih (apply_ s e) (hinv s e hs)]
      exact replay_congr fun b => hstep s e b hs

end Replay
end FleetServer
