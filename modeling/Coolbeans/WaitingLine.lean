import Mathlib.Data.List.Nodup
import Mathlib.Data.List.Zip

/-!
# Serving waiting lines in turn

Several places each have a line of waiting customers and a stock of goods, and
a customer may wait at many places.  The places are visited one after the
other; a visit hands the goods of the place, in order, to the customers in its
line, in order, and a customer who has been served leaves every line.

The visits commute exactly if no customer can be reached at two places, that
is, if no customer stands within the stock of two lines.
-/

namespace WaitingLine

variable {τ γ β : Type}

/-- Who is handed what when the places are visited in the given order. -/
def serve [DecidableEq γ] (stock : τ → List β) : List τ → (τ → List γ) → List (γ × β)
  | [], _ => []
  | place :: places, line =>
      let served := (line place).zip (stock place)
      served ++ serve stock places fun other =>
        (line other).filter fun customer => customer ∉ served.map Prod.fst

/-- The customers who stand within the stock of a place. -/
def inReach (stock : τ → List β) (line : τ → List γ) (place : τ) : List γ :=
  (line place).take (stock place).length

/-- Nobody stands within the stock of two of the places. -/
def Apart (stock : τ → List β) (places : List τ) (line : τ → List γ) : Prop :=
  ∀ first ∈ places, ∀ second ∈ places, first ≠ second →
    ∀ customer ∈ inReach stock line first, customer ∉ inReach stock line second

section Lines

variable {stock : τ → List β} {line : τ → List γ}

theorem map_fst_zip (items : List γ) (goods : List β) :
    (items.zip goods).map Prod.fst = items.take goods.length := by
  induction items generalizing goods with
  | nil => simp
  | cons item items induction =>
      cases goods with
      | nil => rfl
      | cons good goods => simp [induction]

theorem map_snd_zip (items : List γ) (goods : List β) :
    (items.zip goods).map Prod.snd = goods.take items.length := by
  rw [← map_fst_zip, ← List.zip_swap items goods, List.map_map]
  rfl

/-- Whoever leaves the end of a line is not missed by those within the stock. -/
theorem filter_keeps_reach {items : List γ} {goods : List β} {keep : γ → Bool}
    (keeps : ∀ item ∈ items.take goods.length, keep item = true) :
    (items.filter keep).take goods.length = items.take goods.length ∧
      (items.filter keep).zip goods = items.zip goods := by
  induction items generalizing goods with
  | nil => simp
  | cons item items induction =>
      cases goods with
      | nil => simp
      | cons good goods =>
          have first : keep item = true := keeps item (by simp)
          have rest := @induction goods fun later member => keeps later (by simp [member])
          rw [List.filter_cons_of_pos first]
          simp [rest]

/-- Only the stock of the places that are visited matters. -/
theorem serve_congr [DecidableEq γ] {other : τ → List β} {places : List τ}
    (same : ∀ place ∈ places, stock place = other place) (line : τ → List γ) :
    serve stock places line = serve other places line := by
  induction places generalizing line with
  | nil => rfl
  | cons place places induction =>
      rw [serve, serve, same place List.mem_cons_self,
        induction fun later member => same later (List.mem_cons_of_mem _ member)]

theorem of_mem_serve [DecidableEq γ] {places : List τ} {pair : γ × β}
    (member : pair ∈ serve stock places line) :
    ∃ place ∈ places, pair.1 ∈ line place ∧ pair.2 ∈ stock place := by
  induction places generalizing line with
  | nil => cases member
  | cons place places induction =>
      rcases List.mem_append.mp member with first | later
      · exact ⟨place, List.mem_cons_self, List.of_mem_zip first⟩
      · obtain ⟨other, inside, inLine, inStock⟩ := induction later
        exact ⟨other, List.mem_cons_of_mem _ inside, List.mem_of_mem_filter inLine, inStock⟩

/-- Places with nobody in line can be left out. -/
theorem serve_filter [DecidableEq γ] {keep : τ → Bool} {places : List τ}
    (nobody : ∀ place ∈ places, keep place = false → line place = []) :
    serve stock (places.filter keep) line = serve stock places line := by
  induction places generalizing line with
  | nil => rfl
  | cons place places induction =>
      have later : ∀ other ∈ places, keep other = false → line other = [] :=
        fun other member => nobody other (List.mem_cons_of_mem _ member)
      cases kept : keep place with
      | false =>
          have empty := nobody place List.mem_cons_self kept
          rw [List.filter_cons_of_neg (by simp [kept]), induction later, serve, empty]
          simp
      | true =>
          rw [List.filter_cons_of_pos kept, serve, serve, induction]
          intro other member left
          rw [later other member left, List.filter_nil]

/-- The goods may be wrapped before they are handed out. -/
theorem serve_map [DecidableEq γ] {δ : Type} (wrap : β → δ) (places : List τ)
    (line : τ → List γ) :
    serve (fun place => (stock place).map wrap) places line =
      (serve stock places line).map (Prod.map id wrap) := by
  induction places generalizing line with
  | nil => rfl
  | cons place places induction =>
      have served : (line place).zip ((stock place).map wrap) =
          ((line place).zip (stock place)).map (Prod.map id wrap) :=
        List.zip_map_right
      have names : (((line place).zip (stock place)).map (Prod.map id wrap)).map Prod.fst =
          ((line place).zip (stock place)).map Prod.fst := by
        rw [List.map_map]
        rfl
      rw [serve, served, names, induction, serve, List.map_append]

/-- If nobody can be reached at two places, every place serves its own line. -/
theorem serve_of_apart [DecidableEq γ] {places : List τ} (nodup : places.Nodup)
    (apart : Apart stock places line) :
    serve stock places line = places.flatMap fun place => (line place).zip (stock place) := by
  induction places generalizing line with
  | nil => rfl
  | cons place places induction =>
      obtain ⟨fresh, nodup⟩ := List.nodup_cons.mp nodup
      rw [serve, List.flatMap_cons]
      have keeps : ∀ other ∈ places, ∀ customer ∈ inReach stock line other,
          decide (customer ∉ ((line place).zip (stock place)).map Prod.fst) = true := by
        intro other member customer reached
        rw [map_fst_zip, decide_eq_true_eq]
        have different : other ≠ place := by
          rintro rfl
          exact fresh member
        exact apart other (List.mem_cons_of_mem _ member) place List.mem_cons_self different
          customer reached
      have reach : ∀ other ∈ places,
          inReach stock (fun other => (line other).filter fun customer =>
            customer ∉ ((line place).zip (stock place)).map Prod.fst) other =
          inReach stock line other := fun other member =>
        (filter_keeps_reach (keeps other member)).1
      rw [induction nodup]
      · congr 1
        exact List.flatMap_congr fun other member => (filter_keeps_reach (keeps other member)).2
      · intro first firstMember second secondMember different customer
        rw [reach first firstMember, reach second secondMember]
        exact apart first (List.mem_cons_of_mem _ firstMember) second
          (List.mem_cons_of_mem _ secondMember) different customer

/-- Goods that are told apart are handed out once. -/
theorem nodup_goods [DecidableEq γ] {places : List τ} (nodup : places.Nodup)
    (distinct : ∀ place ∈ places, (stock place).Nodup)
    (disjoint : ∀ first ∈ places, ∀ second ∈ places, first ≠ second →
      ∀ good ∈ stock first, good ∉ stock second) :
    ((serve stock places line).map Prod.snd).Nodup := by
  induction places generalizing line with
  | nil => exact List.nodup_nil
  | cons place places induction =>
      obtain ⟨fresh, nodup⟩ := List.nodup_cons.mp nodup
      rw [serve, List.map_append]
      apply List.Nodup.append
      · rw [map_snd_zip]
        exact (distinct place List.mem_cons_self).sublist (List.take_sublist _ _)
      · apply induction nodup
        · exact fun other member => distinct other (List.mem_cons_of_mem _ member)
        · exact fun first firstIn second secondIn =>
            disjoint first (List.mem_cons_of_mem _ firstIn) second
              (List.mem_cons_of_mem _ secondIn)
      · intro good isServed isLater
        obtain ⟨pair, inside, rfl⟩ := List.mem_map.mp isServed
        obtain ⟨other, inServe, sameGood⟩ := List.mem_map.mp isLater
        obtain ⟨later, laterIn, _, inStock⟩ := of_mem_serve inServe
        have different : place ≠ later := by
          rintro rfl
          exact fresh laterIn
        rw [sameGood] at inStock
        exact disjoint place List.mem_cons_self later (List.mem_cons_of_mem _ laterIn) different
          pair.2 (List.of_mem_zip inside).2 inStock

/-- If nobody can be reached at two places, the order of the visits does not matter, and places
with nobody in line may be left out. -/
theorem serve_perm [DecidableEq γ] {places others : List τ} (nodup : places.Nodup)
    (visits : ∀ place, line place ≠ [] → place ∈ places) (otherNodup : others.Nodup)
    (otherVisits : ∀ place, line place ≠ [] → place ∈ others)
    (apart : ∀ first second, first ≠ second → ∀ customer ∈ inReach stock line first,
      customer ∉ inReach stock line second) :
    (serve stock places line).Perm (serve stock others line) := by
  classical
  let keep : τ → Bool := fun place => decide (line place ≠ [])
  have nobody : ∀ place, keep place = false → line place = [] := by
    intro place left
    simpa [keep] using left
  have perm : (places.filter keep).Perm (others.filter keep) := by
    apply (List.perm_ext_iff_of_nodup (nodup.filter _) (otherNodup.filter _)).mpr
    intro place
    rw [List.mem_filter, List.mem_filter]
    constructor
    · rintro ⟨_, kept⟩
      exact ⟨otherVisits place (by simpa [keep] using kept), kept⟩
    · rintro ⟨_, kept⟩
      exact ⟨visits place (by simpa [keep] using kept), kept⟩
  have anywhere : ∀ chosen : List τ, Apart stock chosen line :=
    fun _ first _ second _ => apart first second
  have chosen : ∀ all : List τ, all.Nodup → serve stock all line =
      (all.filter keep).flatMap fun place => (line place).zip (stock place) := by
    intro all distinct
    rw [← serve_filter fun place _ => nobody place,
      serve_of_apart (distinct.filter _) (anywhere _)]
  rw [chosen places nodup, chosen others otherNodup]
  exact perm.flatMap_right _

/-- The customers may go by other names, if no two of them get the same one. -/
theorem serve_rename [DecidableEq γ] {δ : Type} [DecidableEq δ] (name : γ → δ)
    (places : List τ) (line : τ → List γ)
    (distinct : ∀ first second, (∃ place, first ∈ line place) → (∃ place, second ∈ line place) →
      name first = name second → first = second) :
    serve stock places (fun place => (line place).map name) =
      (serve stock places line).map (Prod.map name id) := by
  induction places generalizing line with
  | nil => rfl
  | cons place places induction =>
      have served : ((line place).map name).zip (stock place) =
          ((line place).zip (stock place)).map (Prod.map name id) :=
        List.zip_map_left
      have names : (((line place).zip (stock place)).map (Prod.map name id)).map Prod.fst =
          (((line place).zip (stock place)).map Prod.fst).map name := by
        rw [List.map_map, List.map_map]
        rfl
      rw [serve, served, names, serve, List.map_append]
      congr 1
      rw [← induction]
      · congr 1
        funext other
        rw [List.filter_map]
        congr 1
        apply List.filter_congr
        intro customer inLine
        rw [Function.comp_apply, decide_eq_decide, List.mem_map, not_iff_not]
        constructor
        · rintro ⟨first, inside, same⟩
          obtain ⟨pair, inZip, rfl⟩ := List.mem_map.mp inside
          have isSame := distinct pair.1 customer ⟨place, (List.of_mem_zip inZip).1⟩
            ⟨other, inLine⟩ same
          exact isSame ▸ inside
        · exact fun inside => ⟨customer, inside, rfl⟩
      · rintro first second ⟨firstPlace, firstIn⟩ ⟨secondPlace, secondIn⟩
        exact distinct first second ⟨firstPlace, List.mem_of_mem_filter firstIn⟩
          ⟨secondPlace, List.mem_of_mem_filter secondIn⟩

end Lines

end WaitingLine
