import ChronoShare.StateServer.ActionJson
import ChronoShare.Support.Separated

/-!
# The URI of a name determines it

Escapes are self-delimiting and periods alone keep apart from them, so that no
two components have one URI.  No URI of a component has a slash, so that the
URI of a name falls into those of its components.
-/

namespace ChronoShare

namespace Uri

theorem upperHexDigit_injOn {left right : UInt8} (leftSmall : left < 16)
    (rightSmall : right < 16)
    (same : upperHexDigit left = upperHexDigit right) : left = right := by
  have every : ∀ left < 16, ∀ right < 16,
      upperHexDigit (UInt8.ofNat left) = upperHexDigit (UInt8.ofNat right) →
        left = right := by
    decide +kernel
  apply UInt8.toNat_inj.mp
  apply every left.toNat (UInt8.lt_iff_toNat_lt.mp leftSmall) right.toNat
    (UInt8.lt_iff_toNat_lt.mp rightSmall)
  rw [UInt8.ofNat_toNat, UInt8.ofNat_toNat]
  exact same

theorem escapeByte_selfDelimiting : SelfDelimiting escapeByte := by
  intro left right leftRest rightRest equality
  rw [escapeByte, escapeByte] at equality
  split_ifs at equality with leftPlain rightPlain rightPlain
  · exact List.cons.inj equality
  · rw [(List.cons.inj equality).1] at leftPlain
    cases leftPlain
  · rw [← (List.cons.inj equality).1] at rightPlain
    cases rightPlain
  · simp only [List.cons_append, List.nil_append, List.cons.injEq, true_and]
      at equality
    obtain ⟨highs, lows, rests⟩ := equality
    have high : left / 16 = right / 16 := by
      apply upperHexDigit_injOn _ _ highs
      · rw [UInt8.lt_iff_toNat_lt, UInt8.toNat_div]
        have bound := left.toNat_lt
        simp only [UInt8.reduceToNat]
        omega
      · rw [UInt8.lt_iff_toNat_lt, UInt8.toNat_div]
        have bound := right.toNat_lt
        simp only [UInt8.reduceToNat]
        omega
    have low : left % 16 = right % 16 := by
      apply upperHexDigit_injOn _ _ lows
      · exact UInt8.mod_lt _ (by decide)
      · exact UInt8.mod_lt _ (by decide)
    refine ⟨?_, rests⟩
    rw [← UInt8.toNat_inj] at high low ⊢
    simp only [UInt8.toNat_div, UInt8.toNat_mod, UInt8.reduceToNat]
      at high low
    omega

theorem escapeByte_ne_nil (byte : UInt8) : escapeByte byte ≠ [] := by
  rw [escapeByte]
  split_ifs <;> simp

theorem all_period_of_flatMap {component : Bytes}
    (periods : ∀ byte ∈ component.flatMap escapeByte, byte = period) :
    component.all (· = period) = true := by
  apply List.all_eq_true.mpr
  intro byte member
  apply decide_eq_true
  apply eq_period_of_escapeByte
  intro other escaped
  exact periods other (List.mem_flatMap.mpr ⟨byte, member, escaped⟩)

theorem periods_of_all {component : Bytes}
    (periods : component.all (· = period) = true) :
    ∀ byte ∈ [period, period, period] ++ component, byte = period := by
  intro byte member
  rcases List.mem_append.mp member with three | rest
  · simpa using three
  · exact of_decide_eq_true (List.all_eq_true.mp periods byte rest)

theorem toUri_injective : Function.Injective toUri := by
  intro left right same
  rw [toUri, toUri] at same
  split_ifs at same with leftPeriods rightPeriods rightPeriods
  · exact List.append_cancel_left same
  · have periods := periods_of_all leftPeriods
    rw [same] at periods
    exact absurd (all_period_of_flatMap periods) rightPeriods
  · have periods := periods_of_all rightPeriods
    rw [← same] at periods
    exact absurd (all_period_of_flatMap periods) leftPeriods
  · exact escapeByte_selfDelimiting.flatMap_injective escapeByte_ne_nil same

end Uri

namespace Name

theorem toUri_injective : Function.Injective toUri := by
  intro left right same
  apply eq_of_components
  have parts : ∀ name : Name, name.components ≠ [] →
      name.toUri.splitOn Uri.slash = [] :: name.components.map Uri.toUri := by
    intro name nonempty
    rw [toUri, if_neg nonempty]
    exact splitOn_flatMap_cons Uri.slash_notMem_toUri _
  by_cases leftEmpty : left.components = []
  · rw [toUri, if_pos leftEmpty] at same
    rw [leftEmpty, components_eq_nil_of_toUri same.symm]
  · have rightSome : right.components ≠ [] := by
      intro rightEmpty
      rw [toUri.eq_1 right, if_pos rightEmpty] at same
      exact leftEmpty (components_eq_nil_of_toUri same)
    have leftParts := parts left leftEmpty
    rw [same, parts right rightSome] at leftParts
    exact (Uri.toUri_injective.list_map (List.cons.inj leftParts).2).symm

end Name

end ChronoShare
