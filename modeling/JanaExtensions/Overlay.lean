import Mathlib.Data.List.Basic
import Mathlib.Data.List.Induction

/-! Partial maps in layers. A later layer overrides the earlier ones where it is defined, and
the base is seen where no layer is. -/

namespace Overlay

variable {κ ν : Type*}

def overlay (base layer : κ → Option ν) (k : κ) : Option ν := (layer k).or (base k)

def overlays (base : κ → Option ν) (layers : List (κ → Option ν)) : κ → Option ν :=
  layers.foldl overlay base

theorem overlays_append_singleton (base : κ → Option ν) (layers : List (κ → Option ν))
    (layer : κ → Option ν) :
    overlays base (layers ++ [layer]) = overlay (overlays base layers) layer := by
  simp [overlays]

theorem overlays_eq_base {base : κ → Option ν} {layers : List (κ → Option ν)} {k : κ}
    (h : ∀ layer ∈ layers, layer k = none) : overlays base layers k = base k := by
  induction layers using List.reverseRecOn with
  | nil => rfl
  | append_singleton layers layer ih =>
    have hlast : layer k = none := h layer (by simp)
    have hrest := ih fun layer' h' => h layer' (by simp [h'])
    rw [overlays_append_singleton, overlay, hlast, Option.none_or, hrest]

theorem overlays_eq_last {base : κ → Option ν} {pre post : List (κ → Option ν)}
    {layer : κ → Option ν} {k : κ} {v : ν} (hlayer : layer k = some v)
    (h : ∀ later ∈ post, later k = none) : overlays base (pre ++ layer :: post) k = some v := by
  have hsplit : overlays base (pre ++ layer :: post) =
      overlays (overlay (overlays base pre) layer) post := by
    simp [overlays]
  rw [hsplit, overlays_eq_base h, overlay, hlayer, Option.some_or]

end Overlay
