/-!
# Requests and replies

A stack, or a chunk under construction, is a thing that is asked for this and that, one request
after the other, and changes with every reply. `respond` is all of them in a row. Two laws are
needed of it: what looks alike and replies alike for one request does so for all of them
(`respond_view`), and what one request keeps is kept by all of them, together with any account that
is kept of the replies (`respond_keeps`).
-/

namespace StackMachine

variable {σ τ ρ α : Type}

/-- **Serves requests one after the other.** The answer is the state behind the last of them, and
every request with its reply. -/
def respond (serve : σ → ρ → σ × α) (s : σ) : List ρ → σ × List (ρ × α)
  | [] => (s, [])
  | request :: rest =>
    let (t, reply) := serve s request
    let (u, transcript) := respond serve t rest
    (u, (request, reply) :: transcript)

variable {serve : σ → ρ → σ × α} {serve' : τ → ρ → τ × α} {s : σ}

theorem respond_cons (serve : σ → ρ → σ × α) (s : σ) (request : ρ) (rest : List ρ) :
    respond serve s (request :: rest)
      = ((respond serve (serve s request).1 rest).1,
          (request, (serve s request).2) :: (respond serve (serve s request).1 rest).2) := rfl

/-- **What looks alike after one request looks alike after all of them**, and has given the same
replies. -/
theorem respond_view {view : σ → τ}
    (h : ∀ s request, Prod.map view id (serve s request) = serve' (view s) request) (s : σ)
    (requests : List ρ) :
    Prod.map view id (respond serve s requests) = respond serve' (view s) requests := by
  induction requests generalizing s with
  | nil => rfl
  | cons request rest ih =>
    have hrest : Prod.map view id (respond serve (serve s request).1 rest)
        = respond serve' (serve' (view s) request).1 rest := by
      rw [ih, ← h]
      rfl
    have hreply : (serve s request).2 = (serve' (view s) request).2 :=
      congrArg Prod.snd (h s request)
    rw [respond_cons, respond_cons, ← hrest, ← hreply]
    rfl

/-- **What one request keeps is kept by all of them.** What is kept may be about an account of the
replies as well. -/
theorem respond_keeps {keeps : σ → τ → Prop} {note : τ → ρ × α → τ}
    (step : ∀ s t request, keeps s t →
      keeps (serve s request).1 (note t (request, (serve s request).2)))
    {t : τ} (h : keeps s t) (requests : List ρ) :
    keeps (respond serve s requests).1 ((respond serve s requests).2.foldl note t) := by
  induction requests generalizing s t with
  | nil => exact h
  | cons request rest ih => exact ih (step s t request h)

end StackMachine
