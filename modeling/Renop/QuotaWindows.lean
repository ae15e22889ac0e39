import Mathlib
import Renop.CivilDate
import Renop.QuotaCalls

/-!
# Quota windows

The windows of a period tile time. A reservation lives for `reservationTTL`, and the clean-up keeps the usage of a window
longer than the longest month and that together.
-/

namespace Renop.Quota

open CivilDate

/-! ### Windows -/

/-- The days from the first of March of the year 0 to 1970-01-01. -/
def unixDay : Int := 719468

/-- `time.Date`, as a day since 1970-01-01. The month need not be within the year. -/
def date (year month day : Int) : Int := monthStart (12 * year + month - 3) + (day - 1) - unixDay

def yearOfDay (day : Int) : Int := (monthOf (day + unixDay) + 2) / 12

/-- The month of a day, from January, which is 1. -/
def monthOfDay (day : Int) : Int := (monthOf (day + unixDay) + 2) % 12 + 1

example : date 2024 14 1 = date 2025 2 1 ∧ date 2024 3 1 - date 2024 2 1 = 29 := by decide

/-- The end of `core.PublicationQuotaWindow`. -/
def publicationQuotaWindowEnd (period : Period) (now : Int) : Int :=
  let day := now / dayMillis
  match period with
  | .lifetime => 0
  | .day => publicationQuotaWindow .day now + dayMillis
  | .week => publicationQuotaWindow .week now + 7 * dayMillis
  | .month => date (yearOfDay day) (monthOfDay day + 1) 1 * dayMillis

/-- The boundary before window `k` of a period. -/
def boundary : Period → Int → Int
  | .lifetime, k => k
  | .day, k => k * dayMillis
  | .week, k => (7 * k - 3) * dayMillis
  | .month, k => (monthStart k - unixDay) * dayMillis

def windowIndex (period : Period) (now : Int) : Int :=
  let day := now / dayMillis
  match period with
  | .lifetime => now
  | .day => day
  | .week => (day + 3) / 7
  | .month => monthOf (day + unixDay)

theorem dayOfMonth_eq (day : Int) : dayOfMonth day = day + unixDay - monthStart (monthOf (day + unixDay)) + 1 := by
  have hday : dayOfMonth day = (day + unixDay) - yearStart (yearOf (day + unixDay)) -
      (153 * ((5 * ((day + unixDay) - yearStart (yearOf (day + unixDay))) + 2) / 153) + 2) / 5 + 1 := by
    rw [sub_yearStart]
    rfl
  rw [hday, monthStart_monthOf]
  omega

theorem boundary_strictMono (period : Period) : StrictMono (boundary period) := by
  refine strictMono_int_of_lt_succ fun k => ?_
  have hmonth := (monthStart_bounds k).1
  cases period <;> simp only [boundary, dayMillis] <;> omega

/-- An instant is in the window of its index, and the window is between two boundaries. -/
theorem publicationQuotaWindow_eq {period : Period} (hp : period ≠ .lifetime) (now : Int) :
    publicationQuotaWindow period now = boundary period (windowIndex period now) ∧
    publicationQuotaWindowEnd period now = boundary period (windowIndex period now + 1) ∧
    boundary period (windowIndex period now) ≤ now ∧ now < boundary period (windowIndex period now + 1) := by
  cases period with
  | lifetime => exact absurd rfl hp
  | day =>
    refine ⟨rfl, ?_, ?_⟩
    · simp only [publicationQuotaWindow, publicationQuotaWindowEnd, boundary, windowIndex, dayMillis]
      omega
    · simp only [boundary, windowIndex, dayMillis]
      omega
  | week =>
    refine ⟨?_, ?_, ?_⟩
    · simp only [publicationQuotaWindow, boundary, windowIndex, dayMillis]
      omega
    · simp only [publicationQuotaWindow, publicationQuotaWindowEnd, boundary, windowIndex, dayMillis]
      omega
    · simp only [boundary, windowIndex, dayMillis]
      omega
  | month =>
    obtain ⟨hle, hlt⟩ := monthOf_spec (now / dayMillis + unixDay)
    have hstart : publicationQuotaWindow .month now = boundary .month (windowIndex .month now) := by
      simp only [publicationQuotaWindow, boundary, windowIndex, dayOfMonth_eq]
      congr 1
      omega
    have hend : publicationQuotaWindowEnd .month now = boundary .month (windowIndex .month now + 1) := by
      simp only [publicationQuotaWindowEnd, boundary, windowIndex, date, yearOfDay, monthOfDay]
      have hindex : 12 * ((monthOf (now / dayMillis + unixDay) + 2) / 12) +
          ((monthOf (now / dayMillis + unixDay) + 2) % 12 + 1 + 1) - 3 = monthOf (now / dayMillis + unixDay) + 1 := by omega
      rw [hindex]
      congr 1
      omega
    refine ⟨hstart, hend, ?_⟩
    simp only [boundary, windowIndex, dayMillis] at hle hlt ⊢
    omega

theorem boundary_succ_le {period : Period} (hp : period ≠ .lifetime) (k : Int) :
    boundary period (k + 1) ≤ boundary period k + 31 * dayMillis := by
  have hmonth := (monthStart_bounds k).2
  cases period with
  | lifetime => exact absurd rfl hp
  | day => simp only [boundary, dayMillis]; omega
  | week => simp only [boundary, dayMillis]; omega
  | month => simp only [boundary, dayMillis]; omega

/-! ### The clean-up -/

section CleanUp
variable {text : Text} {db : QuotaDB}

/-- Fifteen minutes. -/
def reservationTTL : Int := 15 * 60 * 1000

/-- A call of the quota service: its `Reserve` sets the expiry. -/
def Call.Served : Call → Prop
  | .reserve _ _ _ now expiresAt _ _ => expiresAt = now + reservationTTL
  | _ => True

/-- A reservation of the window that was current when its time to live began. -/
def Reservation.Leased (r : Reservation) : Prop :=
  ∃ period now, r.periodStart = publicationQuotaWindow period now ∧ r.expiresAt = now + reservationTTL

theorem step_leased {call : Call} (hserved : call.Served) (failure : Failure) (h : ∀ r ∈ db.reservations, r.Leased) :
    ∀ r ∈ (step text db call failure).2.reservations, r.Leased := by
  have hfilter : ∀ {p : Reservation → Bool}, ∀ r ∈ db.reservations.filter p, r.Leased :=
    fun r hr => h r (List.mem_filter.1 hr).1
  cases call with
  | reserve subject defaults delta now expiresAt userId id =>
    simp only [step]
    split_ifs
    · split
      · rename_i claim db' hres
        rcases reserve_cases hres with rfl | ⟨owner, dbn, limits, period, -, -, -, -, -, rfl⟩
        · exact h
        · intro r hr
          rcases List.mem_cons.1 hr with rfl | hr
          · exact ⟨period, now, rfl, hserved⟩
          · exact h r hr
      · exact h
    · exact h
  | commit id committedAt =>
    simp only [step]
    split_ifs
    · split
      · rename_i db' hcommit
        obtain ⟨-, -, -, -, -, -, hres⟩ := commit_cases hcommit
        rw [hres]
        exact hfilter
      · exact h
    · exact h
  | release id =>
    simp only [step, releasePublicationQuotaReservation]
    split_ifs
    · exact h
    · exact hfilter
    · exact h
  | cleanExpired now =>
    simp only [step]
    split_ifs
    · exact h
    · cases failure with
      | first => exact h
      | second => exact hfilter
      | none => exact hfilter

theorem run_leased (hdb : db.reservations = []) {calls : List (Call × Failure)} (hserved : ∀ c ∈ calls, c.1.Served) :
    ∀ r ∈ (run text db calls).reservations, r.Leased := by
  induction calls using List.reverseRecOn with
  | nil =>
    intro r hr
    rw [show (run text db []).reservations = db.reservations from rfl, hdb] at hr
    exact absurd hr List.not_mem_nil
  | append_singleton calls c ih =>
    have hlast := hserved c (by simp)
    have hrun := ih fun c' hc' => hserved c' (by simp [hc'])
    simp only [run, List.foldl_append, List.foldl_cons, List.foldl_nil]
    exact step_leased hlast c.2 hrun

theorem cleanExpired_usage {now : Int} (failure : Failure) (owner : Owner) {w : Int}
    (hw : ¬(0 < w ∧ w < now - publicationQuotaUsageRetention)) :
    (step text db (.cleanExpired now) failure).2.usage owner w = db.usage owner w := by
  simp only [step]
  split_ifs
  · rfl
  · cases failure with
    | first => rfl
    | second => rfl
    | none => simp only [cleanUsage, cleanReservations, if_neg hw]

theorem publicationQuotaWindow_recent (period : Period) (now : Int) :
    publicationQuotaWindow period now = 0 ∨ now - 31 * dayMillis < publicationQuotaWindow period now := by
  by_cases hp : period = .lifetime
  · subst hp
    exact .inl rfl
  · obtain ⟨hstart, -, -, hlt⟩ := publicationQuotaWindow_eq hp now
    have hlen := boundary_succ_le hp (windowIndex period now)
    rw [hstart]
    omega

/-- The windows of a period tile time, and the clean-up keeps the usage of the lifetime window, of every current window, and
of every window with a reservation that is alive. -/
theorem publicationQuotaWindow_tiles :
    (∀ period, period ≠ .lifetime → ∀ now, publicationQuotaWindow period now ≤ now ∧
      now < publicationQuotaWindowEnd period now) ∧ (∀ period, period ≠ .lifetime → ∀ now now',
      publicationQuotaWindow period now = publicationQuotaWindow period now' ∧
          publicationQuotaWindowEnd period now = publicationQuotaWindowEnd period now' ∨
        publicationQuotaWindowEnd period now ≤ publicationQuotaWindow period now' ∨
        publicationQuotaWindowEnd period now' ≤ publicationQuotaWindow period now) ∧
    (∀ period, period ≠ .lifetime → ∀ now,
      publicationQuotaWindow period (publicationQuotaWindowEnd period now) = publicationQuotaWindowEnd period now) ∧
    ∀ (text : Text) (db : QuotaDB) (calls : List (Call × Failure)), db.reservations = [] →
      (∀ c ∈ calls, c.1.Served) → ∀ (now : Int) (failure : Failure) (owner : Owner) (w : Int),
        (w = publicationQuotaWindow .lifetime now ∨ (∃ period, w = publicationQuotaWindow period now) ∨
          ∃ r ∈ (run text db calls).reservations, r.periodStart = w ∧ now < r.expiresAt) →
        (step text (run text db calls) (.cleanExpired now) failure).2.usage owner w = (run text db calls).usage owner w := by
  refine ⟨fun period hp now => ?_, fun period hp now now' => ?_, fun period hp now => ?_,
    fun text db calls hdb hserved now failure owner w hw => ?_⟩
  · obtain ⟨hstart, hend, hle, hlt⟩ := publicationQuotaWindow_eq hp now
    rw [hstart, hend]
    exact ⟨hle, hlt⟩
  · obtain ⟨hstart, hend, -, -⟩ := publicationQuotaWindow_eq hp now
    obtain ⟨hstart', hend', -, -⟩ := publicationQuotaWindow_eq hp now'
    rw [hstart, hend, hstart', hend']
    rcases disjoint_or_eq (boundary_strictMono period) (windowIndex period now) (windowIndex period now') with heq | hdisj
    · exact .inl ⟨by rw [heq], by rw [heq]⟩
    · exact .inr hdisj
  · obtain ⟨-, hend, -, -⟩ := publicationQuotaWindow_eq hp now
    obtain ⟨hstart, -, hle, hlt⟩ := publicationQuotaWindow_eq hp (publicationQuotaWindowEnd period now)
    have hmono := boundary_strictMono period
    have hindex : windowIndex period (publicationQuotaWindowEnd period now) = windowIndex period now + 1 := by
      refine index_unique hmono hle hlt (Int.le_of_eq hend.symm) ?_
      rw [hend]
      exact hmono (by omega)
    rw [hstart, hindex, hend]
  · refine cleanExpired_usage failure owner fun hold => ?_
    have hret : publicationQuotaUsageRetention = 45 * dayMillis := rfl
    have hday : dayMillis = 86400000 := rfl
    have hcurrent : ∀ period, w ≠ publicationQuotaWindow period now := by
      intro period hcur
      have := publicationQuotaWindow_recent period now
      omega
    rcases hw with hlife | ⟨period, hcur⟩ | ⟨r, hr, hstart, halive⟩
    · exact hcurrent .lifetime hlife
    · exact hcurrent period hcur
    · obtain ⟨period, t, hperiod, hexpires⟩ := run_leased hdb hserved r hr
      have hrecent := publicationQuotaWindow_recent period t
      have httl : reservationTTL = 900000 := rfl
      omega

/-- A team publishes in the February of 2024 and reserves again ten minutes before its end; in March the usage of February is
kept while that reservation is alive. -/
theorem publicationQuotaWindow_tiles_leapDay :
    let text : Text := ⟨id, id, some⟩
    let db : QuotaDB := ⟨fun _ => none, fun _ => true, fun _ => none, fun _ _ => none, []⟩
    let team : Owner := ⟨.superTeam, "acme"⟩
    let february : Int := 1706745600000
    let march : Int := 1709251200000
    let late : Int := march - 600000
    let calls : List (Call × Failure) :=
      [(.reserve ⟨"super_team", "acme"⟩ ⟨⟨10, 10, 10⟩, some .month⟩ ⟨1, 1, 1⟩ (february + 1)
        (february + 1 + reservationTTL)
        "u" "r", .none), (.commit "r" (february + 2), .none),
        (.reserve ⟨"super_team", "acme"⟩ ⟨⟨10, 10, 10⟩, some .month⟩ ⟨1, 1, 1⟩ late (late + reservationTTL)
          "u" "s", .none)]
    publicationQuotaWindowEnd .month late = publicationQuotaWindow .month march ∧
      publicationQuotaWindow .month late = february ∧
      (step text (run text db calls) (.cleanExpired (march + 1)) .none).2.usage team february = some ⟨1, 1, 1⟩ := by
  intro text db team february march late calls
  have husage : (run text db calls).usage team february = some ⟨1, 1, 1⟩ := by decide
  refine ⟨by decide, by decide, ?_⟩
  rw [← husage]
  exact publicationQuotaWindow_tiles.2.2.2 text db calls rfl (by simp [calls, Call.Served]) (march + 1) .none team february
    (.inr (.inr (by decide)))

end CleanUp

end Renop.Quota
