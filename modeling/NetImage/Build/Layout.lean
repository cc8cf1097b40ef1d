/-!
# NetImage.Build.Layout

The order of the elements of a tensor with four dims. Values arrive channel by channel; the runtime
wants the channels of a pixel together.
-/

namespace NetImage

/-- The place of an element with the channel before height and width. -/
def nchwIndex (c h w i k y x : Nat) : Nat := ((i * c + k) * h + y) * w + x

/-- For each place with the channel last, in order, the place with the channel first. -/
def channelsLastOrder (n c h w : Nat) : List Nat :=
  (List.range n).flatMap fun i =>
    (List.range h).flatMap fun y =>
      (List.range w).flatMap fun x =>
        (List.range c).map fun k => nchwIndex c h w i k y x

/-- The values of an `n` by `c` by `h` by `w` tensor with the channel last. Values behind those of
the tensor are replaced by `zero`; there is no result if there are too few. -/
def channelsLast {α : Type} (zero : α) (values : List α) (n c h w : Nat) : Option (List α) :=
  if values.length < n * c * h * w then none
  else
    let source := values.toArray
    let moved := (channelsLastOrder n c h w).map fun i => source.getD i zero
    some (moved ++ List.replicate (values.length - n * c * h * w) zero)

end NetImage
