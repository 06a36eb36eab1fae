import RankRunner.Proofs.Ensures

/-! # What an effect preserves

`Effect.Preserves T K x` says that the effect `x` keeps `K`, however it ends, and fails only in the
ways that `T` allows. The rules follow the composition of effects. A failure that is attempted is
known to be allowed when it is handled, and its handler may allow others. -/

namespace RankRunner.Effect

variable {S S' α β : Type} {T T' : Failure → Prop} {K : S → Prop} {x : Effect S α}

def Preserves (T : Failure → Prop) (K : S → Prop) (x : Effect S α) : Prop :=
  ∀ s, K s → Ensures x (fun _ => K) (fun f t => K t ∧ T f) s

namespace Preserves

theorem pure (a : α) : Preserves T K (pure a) := fun _ hs => hs

theorem throw {f : Failure} (hf : T f) : Preserves T K (throw f : Effect S α) :=
  fun _ hs => ⟨hs, hf⟩

theorem fail {f : Fault} (hf : T (.fault f)) : Preserves T K (fail f : Effect S α) := .throw hf

theorem raise {r : Raised} (hr : T (.raised r)) : Preserves T K (raise r : Effect S α) := .throw hr

theorem ofExcept {x : Except Raised α} (h : ∀ r, x = .error r → T (.raised r)) :
    Preserves T K (ofExcept x) := fun _ hs =>
  ensures_ofExcept.2 ⟨fun _ _ => hs, fun r hr => ⟨hs, h r hr⟩⟩

theorem modify {g : S → S} (hg : ∀ s, K s → K (g s)) :
    Preserves T K (modify g : Effect S PUnit) := fun s hs => hg s hs

theorem bind {f : α → Effect S β} (hx : Preserves T K x) (hf : ∀ a, Preserves T K (f a)) :
    Preserves T K (x >>= f) := fun s hs =>
  ensures_bind.2 ((hx s hs).mono (fun a t ht => hf a t ht) fun _ _ h => h)

theorem get_bind {f : S → Effect S β} (hf : ∀ s, K s → Preserves T K (f s)) :
    Preserves T K (get >>= f) := fun s hs => ensures_bind.2 (hf s hs s hs)

/-- A failure that is attempted is one of those that `T'` allows. -/
theorem attempt_bind {f : Except Failure α → Effect S β} (hx : Preserves T' K x)
    (hok : ∀ a, Preserves T K (f (.ok a))) (herror : ∀ e, T' e → Preserves T K (f (.error e))) :
    Preserves T K (x.attempt >>= f) := fun s hs =>
  ensures_bind.2 <| ensures_attempt.2 <|
    (hx s hs).mono (fun a t ht => hok a t ht) fun e t he => herror e he.2 t he.1

theorem ite {c : Prop} [Decidable c] {y : Effect S α} (hx : c → Preserves T K x)
    (hy : ¬ c → Preserves T K y) : Preserves T K (if c then x else y) := by
  split
  · next hc => exact hx hc
  · next hc => exact hy hc

theorem zoom {L : S' → Prop} {view : S → S'} {put : S' → S → S} {x : Effect S' α}
    (hx : Preserves T L x) (hview : ∀ s, K s → L (view s))
    (hput : ∀ s t, K s → L t → K (put t s)) : Preserves T K (x.zoom view put) := fun s hs =>
  ensures_zoom.2 ((hx _ (hview s hs)).mono (fun _ t ht => hput s t hs ht)
    fun _ t he => ⟨hput s t hs he.1, he.2⟩)

theorem ensuring {last : Effect S Unit} (hx : Preserves T K x) (hlast : Preserves T K last) :
    Preserves T K (x.ensuring last) := fun s hs =>
  ensures_ensuring.2 <| (hx s hs).mono (fun _ t ht => hlast t ht) fun _ t he =>
    (hlast t he.1).mono (fun _ _ hu => ⟨hu, he.2⟩) fun _ _ hu => hu

end Preserves
end RankRunner.Effect
