import FleetServer.Concurrency.Alone
import FleetServer.Concurrency.Once
import FleetServer.Concurrency.Record

/-!
# What a request has learnt

A request starts out knowing nothing, and every answer teaches it something.
When its program only makes calls that what it has learnt so far entitles it to,
the same holds in every run, and what it has learnt was so when it was answered.
-/

namespace FleetServer
namespace Concurrency

variable {Op : Type} {Res : Op -> Type} {alpha beta : Type} {K : Type}

/-- What an answer teaches, what may be called by whom knows how much, and which
answers a call can get. -/
structure Lessons {Op : Type} (Res : Op -> Type) (K : Type) where
  learn : K -> (op : Op) -> Res op -> K
  May : K -> Op -> Prop
  Answers : (op : Op) -> Res op -> Prop

namespace Program

def Follows (L : Lessons Res K) : K -> Program Res alpha -> Prop
  | _, done _ => True
  | k, call op next =>
      L.May k op ∧ forall r, L.Answers op r -> Follows L (L.learn k op r) (next r)

variable {L : Lessons Res K} {k : K}

@[simp] theorem follows_done (a : alpha) : Follows L k (done a : Program Res alpha) := trivial

@[simp] theorem follows_call {op : Op} {next : Res op -> Program Res alpha} :
    Follows L k (call op next) <->
      L.May k op ∧ forall r, L.Answers op r -> Follows L (L.learn k op r) (next r) := Iff.rfl

/-- Where there is nothing more to learn, the same calls are allowed to the end. -/
theorem follows_of_uses (hstay : forall op r, L.learn k op r = k) {p : Program Res alpha}
    (h : Uses (L.May k) p) : Follows L k p := by
  induction p with
  | done a => trivial
  | call op next ih =>
      constructor
      · exact h.1
      · intro r _
        rw [hstay op r]
        exact ih r (h.2 r)

/-- Where learning takes nothing away, the same calls are allowed to the end. -/
theorem follows_of_kept (hkept : forall k op r op', L.May k op' -> L.May (L.learn k op r) op')
    {p : Program Res alpha} (h : Uses (L.May k) p) : Follows L k p := by
  induction p generalizing k with
  | done a => trivial
  | call op next ih =>
      constructor
      · exact h.1
      · intro r _
        apply ih r
        exact uses_mono (hkept k op r) (h.2 r)

/-- What may be called whatever was learnt may be called to the end. -/
theorem follows_of_may {P : Op -> Prop} (hmay : forall k op, P op -> L.May k op)
    {p : Program Res alpha} (h : Uses P p) : Follows L k p := by
  induction p generalizing k with
  | done a => trivial
  | call op next ih =>
      constructor
      · exact hmay k op h.1
      · intro r _
        exact ih r (h.2 r)

/-- The second part of a sequence can count on what is learnt for good before it. -/
theorem follows_bind {G : K -> Prop} {Q : alpha -> Prop} {p : Program Res alpha}
    {f : alpha -> Program Res beta} (hp : Follows L k p) (hends : Ends Q p) (hk : G k)
    (hlearn : forall k op r, G k -> G (L.learn k op r))
    (hf : forall a k', Q a -> G k' -> Follows L k' (f a)) : Follows L k (p >>= f) := by
  induction p generalizing k with
  | done a => exact hf a k hends hk
  | call op next ih =>
      constructor
      · exact hp.1
      · intro r hr
        exact ih r (hp.2 r hr) (hends r) (hlearn k op r hk)

end Program

namespace Pool

variable {S : Service Res} {Allowed : Pool S -> Choice S -> Prop} {p q : Pool S}

/-- Whatever a request of a run has left to do follows from something it knows.
`Knows` holds of what a request knows at its start, and of what an answer taught it;
`I` holds of the pool as long as requests do what they may. -/
theorem Run.learnt (L : Nat -> S.Request -> Lessons Res K) (start : K)
    (Concerns : S.Request -> Prop) (Knows : Pool S -> Nat -> S.Request -> K -> Prop)
    (I : Pool S -> Prop)
    (hfollows : forall n request, Concerns request ->
      Program.Follows (L n request) start (S.program n request))
    (hanswers : forall r i request op a, Run Allowed p r ->
      a = (S.machine.exec op r.world).1 ∨ S.machine.fault op = some a ->
        (L i request).Answers op a)
    (hstart : forall r request, Run Allowed p r -> Knows r r.threads.length request start)
    (hstep : forall r c r' i request k, Allowed r c -> r.step c = some r' ->
      Knows r i request k -> Knows r' i request k)
    (hlearn : forall r i request op next k a, Run Allowed p r -> I r ->
      r.threads[i]? = some ⟨request, Program.call op next⟩ -> Knows r i request k ->
      (L i request).May k op -> a = (S.machine.exec op r.world).1 ∨ S.machine.fault op = some a ->
      Knows r i request ((L i request).learn k op a))
    (hkeeps : forall r c r', Run Allowed p r -> I r -> Allowed r c -> r.step c = some r' ->
      (forall i request op next, p.threads.length ≤ i ->
        r.threads[i]? = some ⟨request, Program.call op next⟩ -> Concerns request ->
        exists k, Knows r i request k ∧ (L i request).May k op) -> I r')
    (hbegin : I p) (hrun : Run Allowed p q) :
    I q ∧ forall (i : Nat) (t : Thread S), p.threads.length ≤ i -> q.threads[i]? = some t ->
      Concerns t.request ->
        exists k, Knows q i t.request k ∧ Program.Follows (L i t.request) k t.rest := by
  have hlater := hrun.started_after (I := I)
    (G := fun r i request rest => Concerns request ->
      exists k, Knows r i request k ∧ Program.Follows (L i request) k rest)
    (by
      intro r request hreach _ _ hrequest
      exact ⟨start, hstart r request hreach, hfollows _ request hrequest⟩)
    (by
      intro r c r' i request rest hallowed hs hknown hrequest
      rcases hknown hrequest with ⟨k, hknows, hrest⟩
      exact ⟨k, hstep r c r' i request k hallowed hs hknows, hrest⟩)
    (by
      intro r i request op next a hreach hI hthread hknown hanswer hrequest
      rcases hknown hrequest with ⟨k, hknows, hmay, hnext⟩
      exact ⟨(L i request).learn k op a,
        hlearn r i request op next k a hreach hI hthread hknows hmay hanswer,
        hnext a (hanswers r i request op a hreach hanswer)⟩)
    (by
      intro r c r' hreach hI hallowed hs hknown
      apply hkeeps r c r' hreach hI hallowed hs
      intro i request op next hi hthread hrequest
      rcases hknown i _ hi hthread hrequest with ⟨k, hknows, hmay, _⟩
      exact ⟨k, hknows, hmay⟩)
    hbegin
  exact hlater.2

end Pool

end Concurrency
end FleetServer
