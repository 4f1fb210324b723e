/-
Leases are backed by blocks.

An arena backs a lease by a live block of its own.  What a step does to live blocks is known
(`Arena.Serves`), so what it does to leases follows without a look at the chain: one more lease
where a block is handed out, one less where it comes back, and no byte of the others changes.

A heap adds to this the leases without bytes, which need no block, and the calls that are made
up of several steps.  Those are taken apart again: memory that is to be zero is a lease that is
written to, and a lease that moves is a new one that is written to before the old one is given
back.  `Heap.Backs` is kept by each part, and so by each call and by each run.
-/
import FirstFit.Heap.Leases
import FirstFit.Proofs.Tenancy

namespace FirstFit

/-! ### Bytes -/

namespace Memory

variable {m m' : Memory} {address count distance : Nat} {bytes : List UInt8}

@[simp] theorem length_read (m : Memory) (address count : Nat) :
    (m.read address count).length = count := by
  simp [read]

theorem read_congr (h : ∀ a, address ≤ a → a < address + count → m'.byteAt a = m.byteAt a) :
    m'.read address count = m.read address count := by
  refine List.map_congr_left fun i hi => ?_
  have hlt := List.mem_range.mp hi
  exact h (address + i) (by omega) (by omega)

/-- Fewer bytes from the same address are the first of them. -/
theorem read_min (m : Memory) (address count limit : Nat) :
    m.read address (min count limit) = (m.read address count).take limit := by
  rw [read, read, ← List.map_take, List.take_range, Nat.min_comm]

theorem fill_eq_write (m : Memory) (address count : Nat) (byte : UInt8) :
    m.fill address count byte = m.write address (List.replicate count byte) := by
  induction count generalizing m address with
  | zero => rfl
  | succ count ih =>
    rw [List.replicate_succ]
    exact ih _ _

/-- What is read after a write inside of what is read. -/
theorem read_of_written (hfits : distance + bytes.length ≤ count)
    (h : ∀ a, address ≤ a → a < address + count →
      m'.byteAt a = ((Step.write (address + distance) bytes).writes a).getD (m.byteAt a)) :
    m'.read address count = (m.read address count).take distance ++ bytes ++
      (m.read address count).drop (distance + bytes.length) := by
  have hread : ∀ (m : Memory) {i : Nat}, i < count →
      (m.read address count)[i]? = some (m.byteAt (address + i)) := by
    intro m i hi
    rw [read, List.getElem?_map, List.getElem?_range hi]
    rfl
  have htake : ((m.read address count).take distance).length = distance := by
    rw [List.length_take, length_read]
    omega
  refine List.ext_getElem? fun i => ?_
  rcases Nat.lt_or_ge i count with hi | hi
  · rw [hread m' hi, h (address + i) (by omega) (by omega)]
    simp only [Step.writes]
    rcases Nat.lt_or_ge i distance with hbefore | hfrom
    · rw [if_neg (by omega), List.append_assoc, List.getElem?_append_left (by omega),
        List.getElem?_take_of_lt hbefore, hread m hi]
      rfl
    · have hindex : address + i - (address + distance) = i - distance := by omega
      rw [if_pos (by omega), hindex, List.append_assoc,
        List.getElem?_append_right (by omega), htake]
      rcases Nat.lt_or_ge (i - distance) bytes.length with hin | hbehind
      · rw [List.getElem?_append_left hin, List.getElem?_eq_getElem hin]
        rfl
      · have hrest : distance + bytes.length + (i - distance - bytes.length) = i := by omega
        rw [List.getElem?_append_right hbehind, List.getElem?_drop, hrest, hread m hi,
          List.getElem?_eq_none hbehind]
        rfl
  · rw [List.getElem?_eq_none (by rw [length_read]; exact hi), List.getElem?_eq_none]
    rw [List.length_append, List.length_append, htake, List.length_drop, length_read]
    omega

end Memory

/-! ### Leases of an arena -/

namespace Arena

variable {τ : Type} [Tracer τ] {arena next : Arena τ} {lease : Lease} {leases leases' : List Lease}
  {s : Step} {answer : Option Nat} {address count distance : Nat} {b : Block}
  {bytes : List UInt8}

/-- The arena has a live block for a lease, and what its holder expects is in it. -/
structure Secures (arena : Arena τ) (lease : Lease) : Prop where
  held : ∃ b, arena.Live b lease.address ∧ lease.layout.size ≤ b.size
  aligned : lease.layout.align ≤ arena.region.unit.bytes
  contents : arena.memory.read lease.address lease.layout.size = lease.bytes

/-- The arena secures the leases by blocks of their own, and has handed out no others. -/
structure Backs (arena : Arena τ) (leases : List Lease) : Prop where
  secures : ∀ lease ∈ leases, arena.Secures lease
  distinct : (leases.map Lease.address).Nodup
  counted : arena.stats.live = leases.length

omit [Tracer τ] in
theorem Backs.perm (h : arena.Backs leases) (hperm : leases.Perm leases') :
    arena.Backs leases' :=
  ⟨fun lease hlease => h.secures lease (hperm.mem_iff.mpr hlease),
    (hperm.map Lease.address).nodup_iff.mp h.distinct, h.counted.trans hperm.length_eq⟩

/-- What a step does not write to it leaves as it is. -/
theorem Serves.secures (h : arena.Serves next s answer) (hsecures : arena.Secures lease)
    (hne : s ≠ .release lease.address)
    (hwrites : ∀ a, lease.address ≤ a → a < lease.address + lease.layout.size →
      s.writes a = none) : next.Secures lease := by
  obtain ⟨b, hlive, hsize⟩ := hsecures.held
  obtain ⟨b', hlive', hsize', -, hbytes⟩ := h.stays hlive hne
  refine ⟨⟨b', hlive', hsize' ▸ hsize⟩, by rw [h.region]; exact hsecures.aligned, ?_⟩
  rw [← hsecures.contents]
  refine Memory.read_congr fun a hlow hhigh => ?_
  rw [hbytes a hlow (by omega), hwrites a hlow hhigh]
  rfl

theorem Backs.unanswered {n : Nat} (h : arena.Backs leases)
    (hserves : arena.Serves next (.allocate n) none) : next.Backs leases := by
  refine ⟨fun lease hlease => ?_, h.distinct, hserves.live.trans h.counted⟩
  exact hserves.secures (h.secures lease hlease) (by simp) fun _ _ _ => rfl

theorem Backs.granted {layout : Layout} (h : arena.Backs leases)
    (hserves : arena.Serves next (.allocate layout.size) (some address))
    (halign : layout.align ≤ arena.region.unit.bytes) :
    next.Backs (⟨address, layout, next.memory.read address layout.size⟩ :: leases) := by
  obtain ⟨n, b, hs, hlive, hsize, -⟩ := hserves.granted rfl
  cases hs
  refine ⟨fun lease hlease => ?_, List.nodup_cons.mpr ⟨?_, h.distinct⟩, ?_⟩
  · rcases List.mem_cons.mp hlease with rfl | hlease
    · refine ⟨⟨b, hlive, Nat.le_trans (AlignUnit.le_ceil _ _) hsize⟩, ?_, rfl⟩
      rw [hserves.region]
      exact halign
    · exact hserves.secures (h.secures lease hlease) (by simp) fun _ _ _ => rfl
  · intro hmem
    obtain ⟨lease, hlease, rfl⟩ := List.mem_map.mp hmem
    obtain ⟨b', hlive', -⟩ := (h.secures lease hlease).held
    exact hserves.fresh rfl hlive'
  · rw [List.length_cons, ← h.counted]
    exact hserves.live

theorem Backs.released (h : arena.Backs (lease :: leases))
    (hserves : arena.Serves next (.release lease.address) none) : next.Backs leases := by
  obtain ⟨b, hlive, -⟩ := (h.secures lease (by simp)).held
  obtain ⟨hnot, hdistinct⟩ := List.nodup_cons.mp h.distinct
  refine ⟨fun other hother => ?_, hdistinct, ?_⟩
  · refine hserves.secures (h.secures other (List.mem_cons_of_mem _ hother)) ?_ fun _ _ _ => rfl
    intro heq
    exact hnot (Step.release.inj heq ▸ List.mem_map_of_mem hother)
  · have hlive' := hserves.live
    have hreclaims : (Step.release lease.address).reclaims = true := by
      have hpos := hlive.address_pos
      simp only [Step.reclaims, bne_iff_ne, ne_eq]
      omega
    rw [if_pos hreclaims, h.counted, List.length_cons] at hlive'
    exact Nat.succ.inj hlive'

/-- A write to a lease is found there, and nowhere else. -/
theorem Backs.written (h : arena.Backs (lease :: leases)) (horderly : arena.Orderly)
    (hfits : distance + bytes.length ≤ lease.layout.size)
    (hserves : arena.Serves next (.write (lease.address + distance) bytes) none) :
    next.Backs (lease.written distance bytes :: leases) := by
  have hsecures := h.secures lease (by simp)
  obtain ⟨b, hlive, hsize⟩ := hsecures.held
  obtain ⟨hnot, -⟩ := List.nodup_cons.mp h.distinct
  refine ⟨fun other hother => ?_, h.distinct, hserves.live.trans h.counted⟩
  rcases List.mem_cons.mp hother with rfl | hother
  · obtain ⟨b', hlive', hsize', -, hbytes⟩ := hserves.stays hlive (by simp)
    refine ⟨⟨b', hlive', hsize' ▸ hsize⟩, by rw [hserves.region]; exact hsecures.aligned, ?_⟩
    show next.memory.read lease.address lease.layout.size = _ ++ _ ++ _
    rw [← hsecures.contents]
    exact Memory.read_of_written hfits fun a hlow hhigh => hbytes a hlow (by omega)
  · have hother' := h.secures other (List.mem_cons_of_mem _ hother)
    obtain ⟨b', hlive', hsize'⟩ := hother'.held
    have hne : lease.address ≠ other.address := fun heq => hnot (heq ▸ List.mem_map_of_mem hother)
    have hapart := horderly.live_apart hlive hlive' hne
    refine hserves.secures hother' (by simp) fun a hlow hhigh => ?_
    simp only [Step.writes]
    split
    · exact List.getElem?_eq_none (by omega)
    · rfl

omit [Tracer τ] in
/-- The journal does not matter. -/
theorem Orderly.quiet (h : arena.Orderly) (journal : Array Event) :
    Orderly { arena with journal } := by
  refine ⟨fun husable => ?_, h.capped, h.idle⟩
  obtain ⟨cells, hkept⟩ := h.chain husable
  exact ⟨cells, hkept.region, hkept.tidy, hkept.counts⟩

omit [Tracer τ] in
theorem Backs.quiet (h : arena.Backs leases) (journal : Array Event) :
    Backs { arena with journal } leases :=
  ⟨fun lease hlease =>
    ⟨(h.secures lease hlease).held, (h.secures lease hlease).aligned,
      (h.secures lease hlease).contents⟩, h.distinct, h.counted⟩

end Arena

/-- A layout is the one of its size and its alignment. -/
theorem Layout.of_of? {size align : Nat} {layout : Layout}
    (hof : Layout.of? size align = some layout) : layout.size = size ∧ layout.align = align := by
  unfold of? at hof
  split at hof
  · rw [← Option.some.inj hof]
    exact ⟨rfl, rfl⟩
  · cases hof

/-! ### The calls, one step after another -/

namespace Heap

variable {heap mid next : Heap} {arena arena' : Arena Silent} {layout layout' : Layout}
  {address newSize : Nat} {answer : Option Nat} {α β : Type}

theorem length_read_le (heap : Heap) (address count : Nat) :
    (heap.read address count).length ≤ count := by
  unfold read
  cases heap.arena <;> simp

theorem read_min (heap : Heap) (address count limit : Nat) :
    heap.read address (min count limit) = (heap.read address count).take limit := by
  unfold read
  cases heap.arena with
  | none => exact List.take_nil.symm
  | some arena => exact Memory.read_min ..

theorem run_bind_ok {x : HeapAct α} {f : α → HeapAct β} {a : α} (h : x.run heap = .ok a mid) :
    (x >>= f).run heap = (f a).run mid := by
  rw [EStateM.run_bind, h]

theorem of_run_bind {x : HeapAct α} {f : α → HeapAct β} {b : β}
    (h : (x >>= f).run heap = .ok b next) :
    ∃ a mid, x.run heap = .ok a mid ∧ (f a).run mid = .ok b next := by
  rw [EStateM.run_bind] at h
  split at h
  · next a mid hx => exact ⟨a, mid, hx, h⟩
  · cases h

/-- An act comes to its end under the heap exactly if it does so by itself. -/
theorem run_serve_iff {act : Act Silent α} {a : α} :
    (serve act arena).run heap = .ok a next ↔
      ∃ arena', act.run arena = .ok a arena' ∧ next = heap.install arena' := by
  simp only [EStateM.run, serve, Act.orEnd]
  rcases act arena with ⟨b, arena'⟩ | ⟨e, arena'⟩
  · simp [eq_comm]
  · cases e <;> simp

theorem run_alloc_empty (hsize : layout.size = 0) :
    (alloc layout).run heap = .ok (some layout.align) heap := by
  unfold alloc
  rw [if_pos hsize]
  rfl

theorem run_alloc_uninstalled (hsize : layout.size ≠ 0) (harena : heap.arena = none) :
    (alloc layout).run heap = .ok none heap := by
  unfold alloc
  rw [if_neg hsize, run_bind_ok (EStateM.run_get _), harena]
  rfl

theorem run_alloc_overaligned (hsize : layout.size ≠ 0) (harena : heap.arena = some arena)
    (halign : arena.config.unit.bytes < layout.align) :
    (alloc layout).run heap = .ok none heap := by
  unfold alloc
  rw [if_neg hsize, run_bind_ok (EStateM.run_get _), harena]
  dsimp only
  rw [if_pos halign]
  rfl

theorem run_alloc_served_iff (hsize : layout.size ≠ 0)
    (harena : heap.arena = some arena) (halign : layout.align ≤ arena.config.unit.bytes) :
    (alloc layout).run heap = .ok answer next ↔
      ∃ arena', (Arena.allocate layout.size).run arena = .ok answer arena' ∧
        next = heap.install arena' := by
  unfold alloc
  rw [if_neg hsize, run_bind_ok (EStateM.run_get _), harena]
  dsimp only
  rw [if_neg (by omega)]
  exact run_serve_iff

theorem run_alloc_served (hsize : layout.size ≠ 0)
    (harena : heap.arena = some arena) (halign : layout.align ≤ arena.config.unit.bytes)
    (hrun : (Arena.allocate layout.size).run arena = .ok answer arena') :
    (alloc layout).run heap = .ok answer (heap.install arena') :=
  (run_alloc_served_iff hsize harena halign).mpr ⟨arena', hrun, rfl⟩

theorem run_dealloc_empty (hsize : layout.size = 0) :
    (dealloc address layout).run heap = .ok () heap := by
  unfold dealloc
  rw [if_pos hsize]
  rfl

theorem run_dealloc_served (hsize : layout.size ≠ 0) (harena : heap.arena = some arena)
    (hrun : (Arena.release address).run arena = .ok () arena') :
    (dealloc address layout).run heap = .ok () (heap.install arena') := by
  unfold dealloc
  rw [if_neg hsize, run_bind_ok (EStateM.run_get _), harena]
  exact run_serve_iff.mpr ⟨arena', hrun, rfl⟩

/-- Every call that asks for memory answers as an allocation does. -/
theorem exists_alloc {call : Call} (hlayout : call.layout? = some layout)
    (hrun : call.act.run heap = .ok answer next) :
    ∃ mid, (Heap.alloc layout).run heap = .ok answer mid := by
  cases call with
  | init config memory => cases hlayout
  | dealloc address layout => cases hlayout
  | write address bytes => cases hlayout
  | alloc layout =>
    cases hlayout
    exact ⟨next, hrun⟩
  | allocZeroed layout =>
    cases hlayout
    obtain ⟨address?, mid, halloc, hrest⟩ := of_run_bind hrun
    cases address? with
    | none =>
      obtain ⟨rfl, -⟩ := EStateM.Result.ok.inj hrest
      exact ⟨mid, halloc⟩
    | some address =>
      obtain ⟨rfl, -⟩ := EStateM.Result.ok.inj hrest
      exact ⟨mid, halloc⟩
  | realloc address layout' newSize =>
    have hof : Layout.of? newSize layout'.align = some layout := hlayout
    unfold Call.act Heap.realloc at hrun
    simp only [hof] at hrun
    obtain ⟨moved?, mid, halloc, hrest⟩ := of_run_bind hrun
    cases moved? with
    | none =>
      obtain ⟨rfl, -⟩ := EStateM.Result.ok.inj hrest
      exact ⟨mid, halloc⟩
    | some moved =>
      obtain ⟨_, _, -, hrest⟩ := of_run_bind hrest
      obtain ⟨_, _, -, hrest⟩ := of_run_bind hrest
      obtain ⟨_, _, -, hrest⟩ := of_run_bind hrest
      obtain ⟨rfl, -⟩ := EStateM.Result.ok.inj hrest
      exact ⟨mid, halloc⟩

/-- Every other call answers nothing. -/
theorem answer_eq_none {call : Call} (hrun : call.act.run heap = .ok answer next)
    (hlayout : call.layout? = none) : answer = none := by
  cases call with
  | init config memory =>
    obtain ⟨_, _, -, hrest⟩ := of_run_bind hrun
    exact (EStateM.Result.ok.inj hrest).1.symm
  | alloc layout => cases hlayout
  | allocZeroed layout => cases hlayout
  | realloc address layout newSize =>
    have hof : Layout.of? newSize layout.align = none := hlayout
    unfold Call.act Heap.realloc at hrun
    simp only [hof] at hrun
    exact (EStateM.Result.ok.inj hrun).1.symm
  | dealloc address layout =>
    obtain ⟨_, _, -, hrest⟩ := of_run_bind hrun
    exact (EStateM.Result.ok.inj hrest).1.symm
  | write address bytes => exact (EStateM.Result.ok.inj hrun).1.symm

/-! ### What is known between two calls -/

/-- The leases that take up bytes. -/
def Ledger.pledged (ledger : Ledger) : List Lease :=
  ledger.leases.filter fun lease => lease.layout.size ≠ 0

variable {ledger ledger' : Ledger} {lease : Lease} {calls distance : Nat} {bytes : List UInt8}

theorem Ledger.pledged_grant (hsize : lease.layout.size ≠ 0) :
    (ledger.grant lease).pledged = lease :: ledger.pledged :=
  List.filter_cons_of_pos (by simpa using hsize)

theorem Ledger.pledged_grant_empty (hsize : lease.layout.size = 0) :
    (ledger.grant lease).pledged = ledger.pledged :=
  List.filter_cons_of_neg (by simpa using hsize)

/-- The arena that was installed last backs the leases, after so many calls. -/
structure Serving (arena : Arena Silent) (ledger : Ledger) (calls : Nat) : Prop where
  orderly : arena.Orderly
  allocs_le : arena.stats.allocs ≤ calls
  installed : ∃ config memory, ledger.installed = some (config, memory) ∧
    arena.region = .within config.unit memory
  backs : arena.Backs ledger.pledged

/-- The heap backs the leases of its clients, after so many calls. -/
structure Backs (heap : Heap) (ledger : Ledger) (calls : Nat) : Prop where
  vacant : heap.arena = none → ledger.installed = none ∧ ledger.pledged = []
  serving : ∀ arena, heap.arena = some arena → Serving arena ledger calls
  /-- A lease without bytes is backed by nothing. -/
  empty : ∀ lease ∈ ledger.leases, lease.layout.size = 0 →
    lease.address = lease.layout.align ∧ lease.bytes = []

/-- The count of allocations is a word, whatever came before. -/
def Counted (heap : Heap) : Prop :=
  ∀ arena, heap.arena = some arena → arena.stats.allocs < 2 ^ 64

/-- One more allocation can be counted. -/
def Countable (heap : Heap) : Prop :=
  ∀ arena, heap.arena = some arena → arena.stats.allocs + 1 < 2 ^ 64

theorem counted_install (h : arena.stats.allocs < 2 ^ 64) : (heap.install arena).Counted := by
  intro arena' harena
  obtain rfl := Option.some.inj harena
  exact h

theorem Serving.quiet (h : Serving arena ledger calls) (journal : Array Event) :
    Serving { arena with journal } ledger calls :=
  ⟨h.orderly.quiet journal, h.allocs_le, h.installed, h.backs.quiet journal⟩

namespace Backs

theorem counted (h : heap.Backs ledger calls) (hcalls : calls < 2 ^ 64) : heap.Counted :=
  fun arena harena => Nat.lt_of_le_of_lt (h.serving arena harena).allocs_le hcalls

theorem countable (h : heap.Backs ledger calls) (hcalls : calls + 1 < 2 ^ 64) : heap.Countable :=
  fun arena harena =>
    Nat.lt_of_le_of_lt (Nat.succ_le_succ (h.serving arena harena).allocs_le) hcalls

theorem later (h : heap.Backs ledger calls) : heap.Backs ledger (calls + 1) :=
  ⟨h.vacant, fun arena harena =>
    ⟨(h.serving arena harena).orderly, Nat.le_succ_of_le (h.serving arena harena).allocs_le,
      (h.serving arena harena).installed, (h.serving arena harena).backs⟩, h.empty⟩

/-- Only the leases that take up bytes concern the arena, and their order does not. -/
theorem congr (h : heap.Backs ledger calls) (hinstalled : ledger'.installed = ledger.installed)
    (hpledged : ledger.pledged.Perm ledger'.pledged)
    (hempty : ∀ lease ∈ ledger'.leases, lease.layout.size = 0 →
      lease.address = lease.layout.align ∧ lease.bytes = []) : heap.Backs ledger' calls := by
  refine ⟨fun harena => ?_, fun arena harena => ?_, hempty⟩
  · obtain ⟨hnone, hnil⟩ := h.vacant harena
    rw [hnil] at hpledged
    exact ⟨hinstalled.trans hnone, hpledged.nil_eq.symm⟩
  · obtain ⟨horderly, hle, hwhere, hbacks⟩ := h.serving arena harena
    rw [← hinstalled] at hwhere
    exact ⟨horderly, hle, hwhere, hbacks.perm hpledged⟩

theorem perm (h : heap.Backs ledger calls) (hinstalled : ledger'.installed = ledger.installed)
    (hperm : ledger.leases.Perm ledger'.leases) : heap.Backs ledger' calls :=
  h.congr hinstalled (hperm.filter _) fun lease hlease => h.empty lease (hperm.mem_iff.mpr hlease)

/-- Other leases without bytes are there too. -/
theorem empty_grant (h : heap.Backs ledger calls) (hlease : lease.layout.size = 0 →
      lease.address = lease.layout.align ∧ lease.bytes = []) :
    ∀ other ∈ (ledger.grant lease).leases, other.layout.size = 0 →
      other.address = other.layout.align ∧ other.bytes = [] := by
  intro other hother hzero
  rcases List.mem_cons.mp hother with rfl | hother
  · exact hlease hzero
  · exact h.empty other hother hzero

theorem empty_rest (h : heap.Backs (ledger.grant lease) calls) :
    ∀ other ∈ ledger.leases, other.layout.size = 0 →
      other.address = other.layout.align ∧ other.bytes = [] :=
  fun other hother => h.empty other (List.mem_cons_of_mem _ hother)

/-- A lease with bytes has an arena that serves it. -/
theorem exists_arena (h : heap.Backs (ledger.grant lease) calls) (hsize : lease.layout.size ≠ 0) :
    ∃ arena, heap.arena = some arena ∧ Serving arena (ledger.grant lease) calls := by
  cases harena : heap.arena with
  | none =>
    have hnil := (h.vacant harena).2
    rw [Ledger.pledged_grant hsize] at hnil
    cases hnil
  | some arena => exact ⟨arena, rfl, h.serving arena harena⟩

/-- A new state of the arena is installed. -/
theorem install (hserving : Serving arena ledger calls)
    (hempty : ∀ lease ∈ ledger.leases, lease.layout.size = 0 →
      lease.address = lease.layout.align ∧ lease.bytes = []) :
    (heap.install arena).Backs ledger calls := by
  refine ⟨fun harena => ?_, fun arena' harena => ?_, hempty⟩
  · cases harena
  · obtain rfl := Option.some.inj harena
    exact hserving.quiet #[]

/-- What the holder of a lease finds in the heap is what the lease says. -/
theorem read_eq (h : heap.Backs (ledger.grant lease) calls) :
    heap.read lease.address lease.layout.size = lease.bytes := by
  by_cases hsize : lease.layout.size = 0
  · rw [(h.empty lease (List.mem_cons_self ..) hsize).2, hsize, read]
    cases heap.arena <;> rfl
  · obtain ⟨arena, harena, hserving⟩ := h.exists_arena hsize
    have hbacks := hserving.backs
    rw [Ledger.pledged_grant hsize] at hbacks
    rw [read, harena]
    exact (hbacks.secures lease (by simp)).contents

theorem length_bytes (h : heap.Backs (ledger.grant lease) calls) :
    lease.bytes.length = lease.layout.size := by
  by_cases hsize : lease.layout.size = 0
  · rw [(h.empty lease (List.mem_cons_self ..) hsize).2, hsize]
    rfl
  · obtain ⟨arena, harena, -⟩ := h.exists_arena hsize
    rw [← h.read_eq, read, harena]
    exact Memory.length_read ..

/-! ### The parts of calls -/

theorem init {config : Config} {memory : Memory}
    (hcreate : Arena.create { config with capture := false } memory ⟨⟩ = .ok arena) :
    ∃ next, (Call.init config memory).act.run heap = .ok none next ∧
      next.Backs { installed := some (config, memory) } (calls + 1) ∧ next.Counted := by
  obtain ⟨hregion, hstats, -⟩ := Arena.create_eq hcreate
  have hserving : Serving arena { installed := some (config, memory) } (calls + 1) := by
    refine ⟨Arena.orderly_create hcreate, ?_, ⟨config, memory, rfl, hregion⟩, ⟨?_, ?_, ?_⟩⟩
    · rw [hstats]
      exact Nat.zero_le _
    · intro lease hlease
      cases hlease
    · exact List.nodup_nil
    · rw [hstats]
      rfl
  have hinit : ∃ heap' : Heap,
      (Heap.init config memory).run heap = .ok () (heap'.install arena) := by
    unfold Heap.init
    rw [hcreate]
    cases config.capture with
    | false => exact ⟨heap, rfl⟩
    | true => exact ⟨_, rfl⟩
  obtain ⟨heap', hinit⟩ := hinit
  refine ⟨_, run_bind_ok hinit, install hserving fun lease hlease => ?_, counted_install ?_⟩
  · cases hlease
  · rw [hstats]
    decide

/-- A layout is a request that can be made of an arena. -/
theorem allows_layout (layout : Layout) : arena.Allows (.allocate layout.size) := by
  have hlayout := layout.size_le
  show layout.size < _
  omega

theorem exists_run_alloc (h : heap.Backs ledger calls) (hroom : heap.Countable)
    (layout : Layout) : ∃ answer next, (Heap.alloc layout).run heap = .ok answer next := by
  by_cases hsize : layout.size = 0
  · exact ⟨_, _, run_alloc_empty hsize⟩
  cases harena : heap.arena with
  | none => exact ⟨_, _, run_alloc_uninstalled hsize harena⟩
  | some arena =>
    by_cases halign : arena.config.unit.bytes < layout.align
    · exact ⟨_, _, run_alloc_overaligned hsize harena halign⟩
    have hword := hroom arena harena
    obtain ⟨answer, arena', hrun⟩ := (h.serving arena harena).orderly.exists_step (by omega)
      (fun _ _ => hword) (allows_layout layout)
    exact ⟨answer, _, run_alloc_served hsize harena (Nat.not_lt.mp halign) hrun⟩

theorem of_run_alloc (h : heap.Backs ledger calls) (hcounted : heap.Counted)
    (hrun : (Heap.alloc layout).run heap = .ok answer next) :
    next.Backs (ledger.after next (.alloc layout) answer) (calls + 1) ∧ next.Counted := by
  by_cases hsize : layout.size = 0
  · obtain ⟨rfl, rfl⟩ := EStateM.Result.ok.inj (hrun.symm.trans (run_alloc_empty hsize))
    have hread : next.read layout.align layout.size = [] := by
      rw [hsize, read]
      cases next.arena <;> rfl
    refine ⟨h.later.congr rfl ?_ (h.empty_grant fun _ => ⟨rfl, hread⟩), hcounted⟩
    exact .of_eq (Ledger.pledged_grant_empty hsize).symm
  cases harena : heap.arena with
  | none =>
    obtain ⟨rfl, rfl⟩ :=
      EStateM.Result.ok.inj (hrun.symm.trans (run_alloc_uninstalled hsize harena))
    exact ⟨h.later, hcounted⟩
  | some arena =>
    by_cases halign : arena.config.unit.bytes < layout.align
    · obtain ⟨rfl, rfl⟩ :=
        EStateM.Result.ok.inj (hrun.symm.trans (run_alloc_overaligned hsize harena halign))
      exact ⟨h.later, hcounted⟩
    rw [Nat.not_lt] at halign
    obtain ⟨arena', hallocate, rfl⟩ := (run_alloc_served_iff hsize harena halign).mp hrun
    obtain ⟨horderly, hle, hinstalled, hbacks⟩ := h.serving arena harena
    have hword := hcounted arena harena
    have hallows : arena.Allows (.allocate layout.size) := allows_layout layout
    obtain ⟨horderly', hserves⟩ := horderly.serves hword hallows hallocate
    have hword' := horderly.allocs_lt hword hallows hallocate
    have hallocs := hserves.allocs
    have hle' : arena'.stats.allocs ≤ calls + 1 := by
      rw [hallocs]
      split <;> omega
    rw [← hserves.region] at hinstalled
    refine ⟨?_, counted_install hword'⟩
    cases answer with
    | none => exact install ⟨horderly', hle', hinstalled, hbacks.unanswered hserves⟩ h.empty
    | some address =>
      have hgranted := hbacks.granted hserves halign
      rw [← Ledger.pledged_grant hsize] at hgranted
      exact install ⟨horderly', hle', hinstalled, hgranted⟩
        (h.empty_grant fun hzero => absurd hzero hsize)

/-- What is given back is not the arena's to serve any more. -/
theorem dealloc (h : heap.Backs (ledger.grant lease) calls) (hcounted : heap.Counted) :
    ∃ next, (Heap.dealloc lease.address lease.layout).run heap = .ok () next ∧
      next.Backs ledger calls ∧ next.Counted ∧ (lease.layout.size ≠ 0 →
        ∀ arena, next.arena = some arena → ∀ b, ¬ arena.Live b lease.address) := by
  by_cases hsize : lease.layout.size = 0
  · refine ⟨heap, run_dealloc_empty hsize, h.congr rfl ?_ h.empty_rest, hcounted,
      fun hne => absurd hsize hne⟩
    exact .of_eq (Ledger.pledged_grant_empty hsize)
  obtain ⟨arena, harena, horderly, hle, hinstalled, hbacks⟩ := h.exists_arena hsize
  rw [Ledger.pledged_grant hsize] at hbacks
  have hword := hcounted arena harena
  obtain ⟨b, hlive, -⟩ := (hbacks.secures lease (by simp)).held
  have hallows : arena.Allows (.release lease.address) := .inr ⟨b, hlive⟩
  obtain ⟨answer, arena', hrun⟩ := horderly.exists_step hword (fun _ hs => by cases hs) hallows
  obtain ⟨rfl, hrelease⟩ := Arena.run_step_release_iff.mp hrun
  obtain ⟨horderly', hserves⟩ := horderly.serves hword hallows hrun
  have hallocs : arena'.stats.allocs = arena.stats.allocs := hserves.allocs
  rw [← hserves.region] at hinstalled
  refine ⟨_, run_dealloc_served hsize harena hrelease, install ?_ h.empty_rest,
    counted_install (hallocs ▸ hword), fun _ arena'' harena'' b' hlive' => ?_⟩
  · exact ⟨horderly', hallocs ▸ hle, hinstalled, hbacks.released hserves⟩
  · obtain rfl := Option.some.inj harena''
    have hlive'' : arena'.Live b' lease.address := hlive'
    rcases hserves.comes hlive'' with hanswer | ⟨hne, -⟩
    · cases hanswer
    · exact hne rfl

theorem write (h : heap.Backs (ledger.grant lease) calls) (hcounted : heap.Counted)
    (hfits : distance + bytes.length ≤ lease.layout.size) :
    (modifyMemory (·.write (lease.address + distance) bytes) heap).Backs
      (ledger.grant (lease.written distance bytes)) calls := by
  by_cases hsize : lease.layout.size = 0
  · -- There is no room for a byte, so none was written.
    have hbytes : bytes = [] := List.eq_nil_of_length_eq_zero (by omega)
    have hnothing := (h.empty lease (List.mem_cons_self ..) hsize).2
    have hheap : modifyMemory (·.write (lease.address + distance) bytes) heap = heap := by
      rw [hbytes]
      unfold modifyMemory
      cases heap with
      | mk arena journal => cases arena <;> rfl
    have hlease : lease.written distance bytes = lease := by
      cases lease
      simp only at hnothing
      simp [Lease.written, hnothing, hbytes]
    rw [hheap, hlease]
    exact h
  obtain ⟨arena, harena, horderly, hle, hinstalled, hbacks⟩ := h.exists_arena hsize
  rw [Ledger.pledged_grant hsize] at hbacks
  have hword := hcounted arena harena
  obtain ⟨b, hlive, hroom⟩ := (hbacks.secures lease (List.mem_cons_self ..)).held
  have hallows : arena.Allows (.write (lease.address + distance) bytes) :=
    ⟨b, lease.address, hlive, Nat.le_add_right _ _, by omega⟩
  obtain ⟨answer, arena', hrun⟩ := horderly.exists_step hword (fun _ hs => by cases hs) hallows
  obtain ⟨horderly', hserves⟩ := horderly.serves hword hallows hrun
  obtain ⟨rfl, rfl⟩ := EStateM.Result.ok.inj hrun
  have hwritten := hbacks.written horderly hfits hserves
  have hpledged : (ledger.grant (lease.written distance bytes)).pledged =
      lease.written distance bytes :: ledger.pledged := Ledger.pledged_grant hsize
  rw [← hpledged] at hwritten
  refine ⟨fun hnone => ?_, fun arena' harena' => ?_, ?_⟩
  · rw [modifyMemory, harena] at hnone
    cases hnone
  · rw [modifyMemory, harena] at harena'
    obtain rfl := Option.some.inj harena'
    exact ⟨horderly', hle, hserves.region ▸ hinstalled, hwritten⟩
  · intro other hother hzero
    rcases List.mem_cons.mp hother with rfl | hother
    · exact absurd hzero hsize
    · exact h.empty_rest other hother hzero

end Backs

/-- What is written counts no allocation. -/
theorem Counted.modifyMemory (h : heap.Counted) (change : Memory → Memory) :
    (heap.modifyMemory change).Counted := by
  intro arena harena
  obtain ⟨arena', harena', rfl⟩ := Option.map_eq_some_iff.mp harena
  exact h arena' harena'

namespace Backs

/-! ### Whole calls -/

/-- If there is such a lease, the first of them is found. -/
theorem exists_find? {p : Lease → Prop} [DecidablePred p] {leases : List Lease}
    (h : ∃ lease ∈ leases, p lease) :
    ∃ lease, (leases.find? fun lease => p lease) = some lease ∧ lease ∈ leases ∧ p lease := by
  obtain ⟨other, hother, hp⟩ := h
  cases hfind : leases.find? fun lease => p lease with
  | none => exact absurd hp (by simpa using List.find?_eq_none.mp hfind other hother)
  | some lease =>
    exact ⟨lease, rfl, List.mem_of_find?_eq_some hfind, by simpa using List.find?_some hfind⟩

/-- A lease can be taken to the front. -/
theorem front (h : heap.Backs ledger calls) (hlease : lease ∈ ledger.leases) :
    heap.Backs (Ledger.grant { ledger with leases := ledger.leases.erase lease } lease) calls :=
  h.perm rfl (List.perm_cons_erase hlease)

/-- So can the one that stands behind a new one. -/
theorem front_of_grant {new : Lease} (h : heap.Backs (ledger.grant new) calls)
    (hlease : lease ∈ ledger.leases) :
    heap.Backs (Ledger.grant
      (Ledger.grant { ledger with leases := ledger.leases.erase lease } new) lease) calls :=
  h.perm rfl (((List.perm_cons_erase hlease).cons new).trans (.swap ..))

/-- Once memory is there, it is made zero. -/
theorem allocZeroed (h : heap.Backs ledger calls) (hcounted : heap.Counted)
    (halloc : (Heap.alloc layout).run heap = .ok answer mid) :
    ∃ next, (Heap.allocZeroed layout).run heap = .ok answer next ∧
      next.Backs (ledger.after next (.allocZeroed layout) answer) (calls + 1) ∧
      next.Counted := by
  obtain ⟨hbacks, hcounted'⟩ := h.of_run_alloc hcounted halloc
  unfold Heap.allocZeroed
  rw [run_bind_ok halloc]
  cases answer with
  | none => exact ⟨mid, rfl, hbacks, hcounted'⟩
  | some address =>
    refine ⟨mid.modifyMemory (·.fill address layout.size 0), rfl, ?_, hcounted'.modifyMemory _⟩
    have hbacks' : mid.Backs
        (ledger.grant ⟨address, layout, mid.read address layout.size⟩) (calls + 1) := hbacks
    have hlength := mid.length_read_le address layout.size
    have hwritten := @write _ _ _ _ 0 (List.replicate layout.size 0) hbacks' hcounted' (by simp)
    have hlease : Lease.written ⟨address, layout, mid.read address layout.size⟩ 0
        (List.replicate layout.size 0) = ⟨address, layout, List.replicate layout.size 0⟩ := by
      simp [Lease.written, List.drop_eq_nil_of_le hlength]
    rw [hlease] at hwritten
    simp only [Memory.fill_eq_write]
    exact hwritten

/-- What was copied, and what is behind it. -/
theorem append_drop_eq {kept rest : List UInt8} {size newSize : Nat}
    (hkept : kept.length = min size newSize)
    (hrest : rest.length = newSize - min size newSize) : (kept ++ rest).drop size = rest := by
  rcases Nat.le_total size newSize with hle | hle
  · rw [Nat.min_eq_left hle] at hkept
    rw [← hkept, List.drop_left]
  · rw [Nat.min_eq_right hle] at hkept hrest
    have hnil : rest = [] := List.eq_nil_of_length_eq_zero (by omega)
    rw [hnil, List.append_nil, List.drop_eq_nil_of_le (by omega)]

/-- Once memory is there, a lease moves to it: what fits is copied, and its old place is given
back. -/
theorem realloc (h : heap.Backs ledger calls) (hcounted : heap.Counted)
    (hlease : lease ∈ ledger.leases)
    (hlayout : Layout.of? newSize lease.layout.align = some layout') {moved : Nat}
    (halloc : (Heap.alloc layout').run heap = .ok (some moved) mid) :
    ∃ next, (Heap.realloc lease.address lease.layout newSize).run heap = .ok (some moved) next ∧
      next.Backs (Ledger.grant { ledger with leases := ledger.leases.erase lease } ⟨moved, layout',
        lease.bytes.take newSize ++ (next.read moved newSize).drop lease.layout.size⟩)
        (calls + 1) ∧ next.Counted ∧ (lease.layout.size ≠ 0 →
          ∀ arena, next.arena = some arena → ∀ b, ¬ arena.Live b lease.address) := by
  have hsize : layout'.size = newSize := (Layout.of_of? hlayout).1
  obtain ⟨hbacks, hcounted'⟩ := h.of_run_alloc hcounted halloc
  have hnew : mid.Backs (ledger.grant ⟨moved, layout', mid.read moved layout'.size⟩)
    (calls + 1) := hbacks
  -- What is copied is the first part of the lease that moves.
  have hbefore := hnew.front_of_grant hlease
  have hkept : mid.read lease.address (min lease.layout.size newSize) =
      lease.bytes.take newSize := by
    rw [← hbefore.read_eq]
    exact mid.read_min ..
  have hlength : (lease.bytes.take newSize).length = min lease.layout.size newSize := by
    rw [List.length_take, hbefore.length_bytes, Nat.min_comm]
  have hcopied := @write _ _ _ _ 0 (lease.bytes.take newSize) hnew hcounted'
    (by rw [hlength]; show _ ≤ layout'.size; omega)
  obtain ⟨next, hdealloc, hnext, hcounted'', hgone⟩ :=
    (hcopied.front_of_grant hlease).dealloc (hcounted'.modifyMemory _)
  refine ⟨next, ?_, ?_, hcounted'', hgone⟩
  · unfold Heap.realloc
    simp only [hlayout]
    rw [run_bind_ok halloc, run_bind_ok (EStateM.run_get _), hkept]
    exact run_bind_ok hdealloc
  · have hread := hnext.read_eq
    have hrest := hnew.length_bytes
    simp only [Lease.written, List.take_zero, List.nil_append, Nat.zero_add] at hread hnext hrest
    rw [hsize] at hread hrest hnext
    rw [hread, append_drop_eq hlength (by rw [List.length_drop, hlength, hrest])]
    exact hnext

/-- If there is no memory to move to, that is all. -/
theorem run_realloc_none (address : Nat)
    (hlayout : Layout.of? newSize layout.align = some layout')
    (halloc : (Heap.alloc layout').run heap = .ok none next) :
    (Heap.realloc address layout newSize).run heap = .ok none next := by
  unfold Heap.realloc
  simp only [hlayout]
  exact (run_bind_ok halloc).trans rfl

/-- A lease that is moved is known by its address and its layout. -/
theorem after_realloc (h : heap.Backs ledger calls) (hcounted : heap.Counted)
    (hlease : ∃ lease ∈ ledger.leases, lease.IsFor address layout)
    (hlayout : Layout.of? newSize layout.align = some layout')
    (halloc : (Heap.alloc layout').run heap = .ok answer mid) :
    ∃ next, (Heap.realloc address layout newSize).run heap = .ok answer next ∧
      next.Backs (ledger.after next (.realloc address layout newSize) answer) (calls + 1) ∧
      next.Counted := by
  cases answer with
  | none => exact ⟨mid, run_realloc_none address hlayout halloc, h.of_run_alloc hcounted halloc⟩
  | some moved =>
    obtain ⟨lease, hfind, hmem, rfl, rfl⟩ := exists_find? hlease
    obtain ⟨next, hrun, hbacks, hcounted', -⟩ := h.realloc hcounted hmem hlayout halloc
    refine ⟨next, hrun, ?_, hcounted'⟩
    simp only [Ledger.after, hlayout, Ledger.move, hfind, (Layout.of_of? hlayout).1]
    exact hbacks

/-- A call that is allowed keeps the leases backed, once the memory is there that it asks for. -/
theorem after_alloc {call : Call} (h : heap.Backs ledger calls) (hcounted : heap.Counted)
    (hallows : ledger.Allows call) (halloc : ∀ layout, call.layout? = some layout →
      ∃ mid, (Heap.alloc layout).run heap = .ok answer mid)
    (hnone : call.layout? = none → answer = none) :
    ∃ next, call.act.run heap = .ok answer next ∧
      next.Backs (ledger.after next call answer) (calls + 1) ∧ next.Counted := by
  cases call with
  | init config memory =>
    obtain ⟨arena, hcreate⟩ := hallows
    obtain rfl := hnone rfl
    exact @init heap arena calls config memory hcreate
  | alloc layout =>
    obtain ⟨mid, hrun⟩ := halloc layout rfl
    exact ⟨mid, hrun, h.of_run_alloc hcounted hrun⟩
  | allocZeroed layout =>
    obtain ⟨mid, hrun⟩ := halloc layout rfl
    exact h.allocZeroed hcounted hrun
  | realloc address layout newSize =>
    obtain ⟨hlease, hlayout⟩ := hallows
    obtain ⟨layout', hlayout⟩ := Option.isSome_iff_exists.mp hlayout
    obtain ⟨mid, hrun⟩ := halloc layout' hlayout
    exact h.after_realloc hcounted hlease hlayout hrun
  | dealloc address layout =>
    obtain rfl := hnone rfl
    obtain ⟨lease, hfind, hlease, rfl, rfl⟩ := exists_find? hallows
    obtain ⟨next, hrun, hbacks, hcounted', -⟩ := (h.front hlease).dealloc hcounted
    refine ⟨next, run_bind_ok hrun, ?_, hcounted'⟩
    have hafter : ledger.after next (.dealloc lease.address lease.layout) none =
        { ledger with leases := ledger.leases.erase lease } := by
      simp only [Ledger.after, Ledger.giveBack, hfind]
    rw [hafter]
    exact hbacks.later
  | write address bytes =>
    obtain rfl := hnone rfl
    obtain ⟨lease, hfind, hlease, hlow, hhigh⟩ := exists_find? hallows
    obtain ⟨distance, rfl⟩ := Nat.exists_eq_add_of_le hlow
    have hwritten := @write _ _ _ _ distance bytes (h.front hlease) hcounted (by omega)
    refine ⟨_, rfl, ?_, hcounted.modifyMemory _⟩
    have hafter : ledger.after (modifyMemory (·.write (lease.address + distance) bytes) heap)
        (.write (lease.address + distance) bytes) none =
        Ledger.grant { ledger with leases := ledger.leases.erase lease }
          (lease.written distance bytes) := by
      simp only [Ledger.after, Ledger.overwrite, hfind, Nat.add_sub_cancel_left]
      rfl
    rw [hafter]
    exact hwritten.later

/-- **A call that came to its end keeps the leases backed.** -/
theorem of_run_call {call : Call} (h : heap.Backs ledger calls) (hcounted : heap.Counted)
    (hallows : ledger.Allows call) (hrun : call.act.run heap = .ok answer next) :
    next.Backs (ledger.after next call answer) (calls + 1) ∧ next.Counted := by
  obtain ⟨next', hrun', hbacks⟩ := h.after_alloc hcounted hallows
    (fun layout hlayout => exists_alloc hlayout hrun) (answer_eq_none hrun)
  obtain ⟨-, rfl⟩ := EStateM.Result.ok.inj (hrun.symm.trans hrun')
  exact hbacks

/-- **A call that is allowed comes to its end, if there is room to count what it is given.** -/
theorem exists_run_call {call : Call} (h : heap.Backs ledger calls) (hroom : heap.Countable)
    (hallows : ledger.Allows call) : ∃ answer next, call.act.run heap = .ok answer next := by
  have hcounted : heap.Counted := fun arena harena => Nat.lt_of_succ_lt (hroom arena harena)
  cases hlayout : call.layout? with
  | none =>
    have hunasked : ∀ layout, call.layout? = some layout →
        ∃ mid, (Heap.alloc layout).run heap = .ok none mid := by
      rw [hlayout]
      nofun
    obtain ⟨next, hrun, -⟩ := h.after_alloc hcounted hallows hunasked fun _ => rfl
    exact ⟨none, next, hrun⟩
  | some layout =>
    obtain ⟨answer, mid, halloc⟩ := h.exists_run_alloc hroom layout
    have hasked : ∀ layout, call.layout? = some layout →
        ∃ mid, (Heap.alloc layout).run heap = .ok answer mid := by
      rw [hlayout]
      rintro _ ⟨⟩
      exact ⟨mid, halloc⟩
    obtain ⟨next, hrun, -⟩ := h.after_alloc hcounted hallows hasked (by rw [hlayout]; nofun)
    exact ⟨answer, next, hrun⟩

theorem call {call : Call} (h : heap.Backs ledger calls) (hcalls : calls + 1 < 2 ^ 64)
    (hallows : ledger.Allows call) :
    ∃ answer next, call.act.run heap = .ok answer next ∧
      next.Backs (ledger.after next call answer) (calls + 1) := by
  obtain ⟨answer, next, hrun⟩ := h.exists_run_call (h.countable hcalls) hallows
  exact ⟨answer, next, hrun, (h.of_run_call (h.counted (by omega)) hallows hrun).1⟩

end Backs

end Heap

end FirstFit
