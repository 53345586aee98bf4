import Mathlib.Algebra.BigOperators.Group.List.Basic
import Mathlib.Algebra.GroupWithZero.Nat
import Mathlib.Data.List.Nodup
import Mathlib.Logic.Function.Basic

/-! The nibble allocator: memory for handles, in blocks that are filled from their bottom.

`nmem_malloc` takes the first block of the handle if `size + p->top` is not above its size. The sum is a `size_t` and wraps, and so does the
top where the size is rounded up to the alignment.
-/

set_option autoImplicit false

namespace Yaz.Nmem
open List

/-- The bits of a `size_t`, and the alignment of `struct align` as the power of two that it is. -/
structure Platform where
  width : Nat
  log : Nat
  log_le : log ≤ width

def Platform.align (p : Platform) : Nat := 2 ^ p.log

def Platform.wrap (p : Platform) (n : Nat) : Nat := n % 2 ^ p.width

/-- What one call of `nmem_malloc` handed out. -/
structure Region where
  offset : Nat
  size : Nat
  deriving DecidableEq

/-- `struct nmem_block`: `buf` is the memory, by the number of its allocation. The regions are what was handed out of it, the
last in front. -/
structure Block where
  buf : Nat
  size : Nat
  top : Nat
  regions : List Region
  deriving DecidableEq

structure Control where
  total : Nat
  blocks : List Block
  deriving DecidableEq

/-- The handles there are, and how many blocks were allocated so far. -/
structure Heap where
  handles : Nat → Control
  allocated : Nat

def nmemChunk : Nat := 4 * 1024

/-- `get_block`. -/
def getBlock (heap : Heap) (size : Nat) : Block := { buf := heap.allocated, size := max nmemChunk size, top := 0, regions := [] }

variable (p : Platform)

/-- `(size + (NMEM_ALIGN - 1)) & ~(NMEM_ALIGN - 1)`. -/
def roundUp (size : Nat) : Nat := p.wrap (size + (p.align - 1)) / p.align * p.align

/-- `!p || p->size < size + p->top`. -/
def needsBlock (blocks : List Block) (size : Nat) : Bool :=
  match blocks with
  | [] => true
  | block :: _ => block.size < p.wrap (size + block.top)

def Block.take (block : Block) (size : Nat) : Block :=
  { block with top := p.wrap (block.top + roundUp p size), regions := ⟨block.top, size⟩ :: block.regions }

/-- The blocks of the handle with the one in front that memory is taken from. -/
def Heap.ready (heap : Heap) (n size : Nat) : List Block :=
  if needsBlock p (heap.handles n).blocks size then getBlock heap size :: (heap.handles n).blocks else (heap.handles n).blocks

def takeFirst (size : Nat) : List Block → List Block
  | [] => []
  | block :: rest => block.take p size :: rest

/-- `nmem_malloc`, where `xmalloc` succeeds: the memory and the offset in it. -/
def nmemMalloc (heap : Heap) (n size : Nat) : Heap × Option (Nat × Nat) :=
  let blocks := heap.ready p n size
  ({ handles := Function.update heap.handles n
      { total := p.wrap ((heap.handles n).total + size), blocks := takeFirst p size blocks }
     allocated := if needsBlock p (heap.handles n).blocks size then heap.allocated + 1 else heap.allocated },
    blocks.head?.map fun block => (block.buf, block.top))

/-- The loop of `nmem_transfer`: each block of the source is put in front of those of the destination. -/
def moveBlocks (dst : List Block) : (src : List Block) → List Block
  | [] => dst
  | block :: rest => moveBlocks (block :: dst) rest

def nmemTransfer (heap : Heap) (dst src : Nat) : Heap :=
  { heap with
    handles := Function.update
      (Function.update heap.handles dst
        { total := p.wrap ((heap.handles dst).total + (heap.handles src).total)
          blocks := moveBlocks (heap.handles dst).blocks (heap.handles src).blocks })
      src { total := 0, blocks := [] } }

def nmemReset (heap : Heap) (n : Nat) : Heap := { heap with handles := Function.update heap.handles n { total := 0, blocks := [] } }

inductive Call where
  | malloc (n size : Nat)
  | transfer (dst src : Nat)
  | reset (n : Nat)
  deriving DecidableEq

/-- A size is a `size_t`; a transfer is between two handles. -/
def Call.Apt : Call → Prop
  | .malloc _ size => size < 2 ^ p.width
  | .transfer dst src => dst ≠ src
  | .reset _ => True

def Heap.call (heap : Heap) : Call → Heap
  | .malloc n size => (nmemMalloc p heap n size).1
  | .transfer dst src => nmemTransfer p heap dst src
  | .reset n => nmemReset heap n

def Heap.fresh : Heap := { handles := fun _ => { total := 0, blocks := [] }, allocated := 0 }

/-! ### What the regions are like -/

def sizes (blocks : List Block) : Nat := (blocks.map fun block => (block.regions.map Region.size).sum).sum

/-- Every region is inside its block and aligned, no two share an octet, and the totals are right. -/
structure Heap.Right (heap : Heap) : Prop where
  inside : ∀ n, ∀ block ∈ (heap.handles n).blocks, ∀ r ∈ block.regions, r.offset + r.size ≤ block.size
  aligned : ∀ n, ∀ block ∈ (heap.handles n).blocks, ∀ r ∈ block.regions, p.align ∣ r.offset
  apart : ∀ n, ∀ block ∈ (heap.handles n).blocks, block.regions.Pairwise fun r s => s.offset + s.size ≤ r.offset
  owned : ∀ n, ((heap.handles n).blocks.map Block.buf).Nodup
  owner : ∀ n m, ∀ block ∈ (heap.handles n).blocks, ∀ other ∈ (heap.handles m).blocks, block.buf = other.buf → n = m
  total : ∀ n, (heap.handles n).total = p.wrap (sizes (heap.handles n).blocks)

/-- Neither the sum in the test nor the rounded top wraps in the block that memory is taken from. -/
def Call.Fits (heap : Heap) : Call → Prop
  | .malloc n size => ∀ block ∈ (heap.ready p n size).head?, block.top + size + (p.align - 1) < 2 ^ p.width
  | _ => True

/-- The heaps that calls lead to which fit. -/
inductive Reaches : Heap → Prop where
  | fresh : Reaches .fresh
  | call {heap : Heap} (before : Reaches heap) (call : Call) (apt : call.Apt p) (fits : call.Fits p heap) : Reaches (heap.call p call)

structure Block.Sound (block : Block) : Prop where
  top : p.align ∣ block.top
  below : ∀ r ∈ block.regions, r.offset + r.size ≤ block.top
  inside : ∀ r ∈ block.regions, r.offset + r.size ≤ block.size
  aligned : ∀ r ∈ block.regions, p.align ∣ r.offset
  apart : block.regions.Pairwise fun r s => s.offset + s.size ≤ r.offset

def Heap.bufs (heap : Heap) (n : Nat) : List Nat := (heap.handles n).blocks.map Block.buf

structure Heap.Sound (heap : Heap) : Prop where
  blocks : ∀ n, ∀ block ∈ (heap.handles n).blocks, block.Sound p
  owned : ∀ n, (heap.bufs n).Nodup
  owner : ∀ n m, ∀ buf ∈ heap.bufs n, buf ∈ heap.bufs m → n = m
  old : ∀ n, ∀ buf ∈ heap.bufs n, buf < heap.allocated
  total : ∀ n, (heap.handles n).total = p.wrap (sizes (heap.handles n).blocks)

variable {p} {heap : Heap} {block : Block} {n size : Nat}

theorem align_pos : 0 < p.align := Nat.two_pow_pos p.log

theorem wrap_add_wrap (x y : Nat) : p.wrap (p.wrap x + y) = p.wrap (x + y) := by simp [Platform.wrap]

theorem le_roundUp (room : size + (p.align - 1) < 2 ^ p.width) : size ≤ roundUp p size := by
  have positive := align_pos (p := p)
  have whole := Nat.div_add_mod (size + (p.align - 1)) p.align
  have rest := Nat.mod_lt (size + (p.align - 1)) positive
  rw [Nat.mul_comm] at whole
  rw [roundUp, Platform.wrap, Nat.mod_eq_of_lt room]
  omega

theorem roundUp_le (room : size + (p.align - 1) < 2 ^ p.width) : roundUp p size ≤ size + (p.align - 1) := by
  rw [roundUp, Platform.wrap, Nat.mod_eq_of_lt room]
  exact Nat.div_mul_le_self _ _

theorem Heap.Sound.right (sound : heap.Sound p) : heap.Right p where
  inside n block among := (sound.blocks n block among).inside
  aligned n block among := (sound.blocks n block among).aligned
  apart n block among := (sound.blocks n block among).apart
  owned := sound.owned
  owner n m block among _ also same := sound.owner n m block.buf (mem_map_of_mem among) (same ▸ mem_map_of_mem also)
  total := sound.total

/-- Memory is taken from a block in which it fits. -/
theorem Block.Sound.take (sound : block.Sound p) (room : block.top + size + (p.align - 1) < 2 ^ p.width)
    (enough : block.top + size ≤ block.size) : (block.take p size).Sound p := by
  have least : size ≤ roundUp p size := le_roundUp (by omega)
  have most : roundUp p size ≤ size + (p.align - 1) := roundUp_le (by omega)
  have top : p.wrap (block.top + roundUp p size) = block.top + roundUp p size := Nat.mod_eq_of_lt (by omega)
  refine ⟨?_, ?_, ?_, ?_, ?_⟩
  · rw [Block.take, top]
    exact Nat.dvd_add sound.top (Nat.dvd_mul_left ..)
  · rw [Block.take, top]
    refine forall_mem_cons.mpr ⟨?_, fun r among => ?_⟩
    · exact Nat.add_le_add_left least _
    · exact Nat.le_trans (sound.below r among) (Nat.le_add_right ..)
  · exact forall_mem_cons.mpr ⟨enough, sound.inside⟩
  · exact forall_mem_cons.mpr ⟨sound.top, sound.aligned⟩
  · exact pairwise_cons.mpr ⟨sound.below, sound.apart⟩

theorem sound_getBlock (heap : Heap) (size : Nat) : (getBlock heap size).Sound p := by
  refine ⟨Nat.dvd_zero _, ?_, ?_, ?_, .nil⟩ <;> simp [getBlock]

/-- The block in front has room, once there is one. -/
theorem ready_cons (fits : (Call.malloc n size).Fits p heap) :
    ∃ block rest, heap.ready p n size = block :: rest ∧ block.top + size ≤ block.size ∧
      block.top + size + (p.align - 1) < 2 ^ p.width := by
  rw [Call.Fits] at fits
  unfold Heap.ready at fits ⊢
  cases needed : needsBlock p (heap.handles n).blocks size with
  | true =>
    rw [needed, if_pos rfl] at fits
    refine ⟨_, _, if_pos rfl, ?_, fits _ rfl⟩
    rw [getBlock, Nat.zero_add]
    exact Nat.le_max_right ..
  | false =>
    rw [needed, if_neg Bool.false_ne_true] at fits
    rw [if_neg Bool.false_ne_true]
    cases blocks : (heap.handles n).blocks with
    | nil => simp [blocks, needsBlock] at needed
    | cons block rest =>
      rw [blocks] at needed fits
      have room := fits block rfl
      rw [needsBlock, decide_eq_false_iff_not, Platform.wrap, Nat.mod_eq_of_lt (by omega)] at needed
      exact ⟨block, rest, rfl, by omega, room⟩

theorem ready_bufs (heap : Heap) (n size : Nat) :
    (heap.ready p n size).map Block.buf = if needsBlock p (heap.handles n).blocks size then heap.allocated :: heap.bufs n
      else heap.bufs n := by
  unfold Heap.ready
  split <;> rfl

theorem ready_sizes (heap : Heap) (n size : Nat) : sizes (heap.ready p n size) = sizes (heap.handles n).blocks := by
  unfold Heap.ready
  split
  · simp [sizes, getBlock]
  · rfl

/-! ### What the calls keep -/

theorem Heap.bufs_update (heap : Heap) (control : Control) (allocated : Nat) :
    Heap.bufs { handles := Function.update heap.handles n control, allocated } =
      Function.update heap.bufs n (control.blocks.map Block.buf) := by
  funext m
  unfold Heap.bufs
  by_cases same : m = n
  · rw [same, Function.update_self]
    dsimp only
    rw [Function.update_self]
  · rw [Function.update_of_ne same]
    dsimp only
    rw [Function.update_of_ne same]

/-- A handle gets other blocks, which no other handle has. -/
theorem Heap.Sound.update (sound : heap.Sound p) {control : Control} {allocated : Nat} (larger : heap.allocated ≤ allocated)
    (blocks : ∀ block ∈ control.blocks, block.Sound p) (owned : (control.blocks.map Block.buf).Nodup)
    (own : ∀ buf ∈ control.blocks.map Block.buf, buf < allocated ∧ ∀ m ≠ n, buf ∉ heap.bufs m)
    (total : control.total = p.wrap (sizes control.blocks)) :
    Heap.Sound p { handles := Function.update heap.handles n control, allocated } := by
  refine ⟨?_, ?_, ?_, ?_, ?_⟩
  · exact (Function.forall_update_iff heap.handles fun _ c => ∀ block ∈ c.blocks, block.Sound p).mpr ⟨blocks, fun m _ => sound.blocks m⟩
  · rw [Heap.bufs_update]
    exact (Function.forall_update_iff heap.bufs fun _ bufs => bufs.Nodup).mpr ⟨owned, fun m _ => sound.owned m⟩
  · rw [Heap.bufs_update]
    intro m k buf first second
    by_cases here : m = n
    · by_cases there : k = n
      · exact here.trans there.symm
      · rw [here, Function.update_self] at first
        rw [Function.update_of_ne there] at second
        exact absurd second ((own buf first).2 k there)
    · rw [Function.update_of_ne here] at first
      by_cases there : k = n
      · rw [there, Function.update_self] at second
        exact absurd first ((own buf second).2 m here)
      · rw [Function.update_of_ne there] at second
        exact sound.owner m k buf first second
  · rw [Heap.bufs_update]
    exact (Function.forall_update_iff heap.bufs fun _ bufs => ∀ buf ∈ bufs, buf < allocated).mpr
      ⟨fun buf among => (own buf among).1, fun m _ buf among => Nat.lt_of_lt_of_le (sound.old m buf among) larger⟩
  · exact (Function.forall_update_iff heap.handles fun _ c => c.total = p.wrap (sizes c.blocks)).mpr ⟨total, fun m _ => sound.total m⟩

theorem reset_sound (sound : heap.Sound p) (n : Nat) : (nmemReset heap n).Sound p :=
  sound.update (Nat.le_refl _) (forall_mem_nil _) nodup_nil (forall_mem_nil _) rfl

theorem moveBlocks_eq (dst src : List Block) : moveBlocks dst src = src.reverse ++ dst := by
  induction src generalizing dst with
  | nil => rfl
  | cons _ _ ih => rw [moveBlocks, ih, reverse_cons, append_assoc, singleton_append]

theorem sizes_moveBlocks (dst src : List Block) : sizes (moveBlocks dst src) = sizes dst + sizes src := by
  rw [moveBlocks_eq, sizes, map_append, sum_append, map_reverse, sum_reverse, Nat.add_comm]
  rfl

theorem malloc_sound (sound : heap.Sound p) (fits : (Call.malloc n size).Fits p heap) : (heap.call p (.malloc n size)).Sound p := by
  obtain ⟨block, rest, ready, enough, room⟩ := ready_cons fits
  have each : ∀ block ∈ heap.ready p n size, block.Sound p := by
    unfold Heap.ready
    split
    · exact forall_mem_cons.mpr ⟨sound_getBlock heap size, sound.blocks n⟩
    · exact sound.blocks n
  have bufs := ready_bufs (p := p) heap n size
  have before := ready_sizes (p := p) heap n size
  rw [ready] at each bufs before
  obtain ⟨first, others⟩ := forall_mem_cons.mp each
  -- the blocks the handle had are its own, and a new one was not there
  have own : ∀ buf ∈ heap.bufs n, buf < heap.allocated ∧ ∀ m ≠ n, buf ∉ heap.bufs m := fun buf among =>
    ⟨sound.old n buf among, fun m other also => other (sound.owner m n buf also among)⟩
  rw [Heap.call, nmemMalloc, ready]
  refine sound.update ?_ (forall_mem_cons.mpr ⟨first.take room enough, others⟩) ?_ ?_ ?_
  · split <;> omega
  · change ((block :: rest).map Block.buf).Nodup
    rw [bufs]
    split
    · exact nodup_cons.mpr ⟨fun among => Nat.lt_irrefl _ (own _ among).1, sound.owned n⟩
    · exact sound.owned n
  · change ∀ buf ∈ (block :: rest).map Block.buf, _
    rw [bufs]
    split
    · refine forall_mem_cons.mpr ⟨⟨Nat.lt_succ_self _, fun m _ among => Nat.lt_irrefl _ (sound.old m _ among)⟩, ?_⟩
      exact fun buf among => (own buf among).imp Nat.lt_succ_of_lt id
    · exact own
  · dsimp only
    rw [sound.total, wrap_add_wrap, ← before]
    congr 1
    simp only [sizes, takeFirst, Block.take, map_cons, sum_cons]
    omega

theorem transfer_sound (sound : heap.Sound p) {dst src : Nat} (two : dst ≠ src) : (heap.call p (.transfer dst src)).Sound p := by
  have emptied := reset_sound sound src
  have bufs : (moveBlocks (heap.handles dst).blocks (heap.handles src).blocks).map Block.buf =
    (heap.bufs src).reverse ++ heap.bufs dst := by
    rw [moveBlocks_eq, map_append, map_reverse]
    rfl
  rw [Heap.call, nmemTransfer, Function.update_comm two]
  refine emptied.update (Nat.le_refl _) ?_ ?_ ?_ ?_
  · intro block among
    rw [moveBlocks_eq, mem_append, mem_reverse] at among
    exact among.elim (sound.blocks src block) (sound.blocks dst block)
  · rw [bufs]
    refine nodup_append.mpr ⟨nodup_reverse.mpr (sound.owned src), sound.owned dst, ?_⟩
    rintro buf moved _ own rfl
    exact two (sound.owner dst src buf own (mem_reverse.mp moved))
  · rw [bufs]
    intro buf among
    rw [mem_append, mem_reverse] at among
    refine ⟨among.elim (sound.old src buf) (sound.old dst buf), fun m other also => ?_⟩
    rw [nmemReset, Heap.bufs_update] at also
    by_cases source : m = src
    · rw [source, Function.update_self] at also
      cases also
    · rw [Function.update_of_ne source] at also
      exact among.elim (fun moved => source (sound.owner m src buf also moved)) fun own => other (sound.owner m dst buf also own)
  · dsimp only
    rw [sizes_moveBlocks, sound.total, sound.total, wrap_add_wrap, Nat.add_comm, wrap_add_wrap, Nat.add_comm]

theorem Heap.Sound.call (sound : heap.Sound p) {call : Call} (apt : call.Apt p) (fits : call.Fits p heap) : (heap.call p call).Sound p := by
  cases call with
  | malloc => exact malloc_sound sound fits
  | transfer => exact transfer_sound sound apt
  | reset n => exact reset_sound sound n

theorem Reaches.sound (reached : Reaches p heap) : heap.Sound p := by
  induction reached with
  | fresh => exact ⟨fun _ => forall_mem_nil _, fun _ => nodup_nil, nofun, nofun, fun _ => rfl⟩
  | call _ call apt fits ih => exact ih.call apt fits

theorem malloc_returned (heap : Heap) (n size : Nat) :
    ∃ block ∈ ((nmemMalloc p heap n size).1.handles n).blocks, ∃ r ∈ block.regions,
      (nmemMalloc p heap n size).2 = some (block.buf, r.offset) ∧ r.size = size := by
  have some : ∃ block rest, heap.ready p n size = block :: rest := by
    unfold Heap.ready
    cases blocks : (heap.handles n).blocks with
    | nil => exact ⟨_, _, rfl⟩
    | cons => split <;> exact ⟨_, _, rfl⟩
  obtain ⟨block, rest, ready⟩ := some
  rw [nmemMalloc, ready]
  dsimp only
  rw [Function.update_self]
  exact ⟨_, mem_cons_self, ⟨block.top, size⟩, mem_cons_self, rfl, rfl⟩

/-- What every call returns is a region of its handle, and in every heap that calls lead to which fit, the regions are as they should be. -/
theorem regions_right (reached : Reaches p heap) :
    heap.Right p ∧ ∀ n size, ∃ block ∈ ((nmemMalloc p heap n size).1.handles n).blocks, ∃ r ∈ block.regions,
      (nmemMalloc p heap n size).2 = some (block.buf, r.offset) ∧ r.size = size :=
  ⟨reached.sound.right, malloc_returned heap⟩

def lp64 : Platform := ⟨64, 3, by decide⟩

theorem regions_right_two :
    (((Heap.call lp64 .fresh (.malloc 0 24)).call lp64 (.malloc 1 40)).call lp64 (.transfer 0 1)).Right lp64 := by
  have first : Reaches lp64 (Heap.call lp64 .fresh (.malloc 0 24)) := by
    refine .call .fresh (.malloc 0 24) (show 24 < 2 ^ lp64.width by decide) fun block among => ?_
    obtain rfl : getBlock .fresh 24 = block := Option.some.inj among
    decide
  have second : Reaches lp64 ((Heap.call lp64 .fresh (.malloc 0 24)).call lp64 (.malloc 1 40)) := by
    refine .call first (.malloc 1 40) (show 40 < 2 ^ lp64.width by decide) fun block among => ?_
    obtain rfl : getBlock (Heap.call lp64 .fresh (.malloc 0 24)) 40 = block := Option.some.inj among
    decide
  exact (regions_right (.call second (.transfer 0 1) (show 0 ≠ 1 by decide) trivial)).1

/-- The size of the second call is 8 octets below nothing: the sum in the test is 8. -/
theorem regions_wrapped :
    ∃ calls : List Call, (∀ call ∈ calls, call.Apt lp64) ∧ ¬ (calls.foldl (Heap.call lp64) .fresh).Right lp64 := by
  refine ⟨[.malloc 0 16, .malloc 0 (2 ^ 64 - 8)], by simp [Call.Apt, lp64], fun right => ?_⟩
  have inside := right.inside 0
  revert inside
  decide

end Yaz.Nmem
