namespace ApiAtlas

/-- Some run `(low, high)` holds `n`. -/
def inRuns (runs : List (Nat × Nat)) (n : Nat) : Bool :=
  runs.any fun (low, high) => low ≤ n && n ≤ high

/-- Some run `(low, high, stride)` passes through `n`. -/
def inStrides (runs : List (Nat × Nat × Nat)) (n : Nat) : Bool :=
  runs.any fun (low, high, stride) => low ≤ n && n ≤ high && (n - low) % stride == 0

/-- The characters a code point maps to: a listed expansion, a listed distance, or itself. -/
def mapCodePoint (shifts : List (Nat × Nat × Nat × Int)) (expansions : List (Nat × List Nat))
    (c : Char) : List Char :=
  match expansions.lookup c.toNat with
  | some expansion => expansion.map Char.ofNat
  | none =>
    match shifts.find? fun (low, high, stride, _) =>
        low ≤ c.toNat && c.toNat ≤ high && (c.toNat - low) % stride == 0 with
    | some (_, _, _, distance) => [Char.ofNat (c.toNat + distance).toNat]
    | none => [c]

end ApiAtlas
