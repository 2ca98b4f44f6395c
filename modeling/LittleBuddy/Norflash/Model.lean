import LittleBuddy.Lib.Chain
import LittleBuddy.Lib.NorMem
import Mathlib.Algebra.Group.Nat.Defs
import Mathlib.Algebra.GroupWithZero.Nat
import Mathlib.Data.Fintype.Card
/-!
# The deferred flash queue

The functions of `services/norflash_api/norflash_api.cpp`. Every module keeps
a list of pending flash operations, newest first; `norflash_api_flush` executes
the oldest one. List nodes and sector buffers come from two static pools.

`none` stands for a call that does not return: a failed `ASSERT`, a write
outside a buffer, or a loop over a list that has no end. What the hardware and
the other core answer during a call is a `FlushEnv` argument. `FLASH_REMAP`
and `FLASH_API_SIMPLE` are off; a build without `FLASH_SUSPEND` is the case in
which the HAL never answers `SUSPENDED`.
-/
open NorMem LinkedPool

namespace Norflash

/-! ## Types -/

/-- `NORFLASH_API_SECTOR_SIZE`. -/
abbrev sectorSize : Nat := 4096

/-- `NORFLASH_API_OPRA_LIST_LEN` for `NORFLASH_API_WRITE_BUFF_LEN = W`
(1 in a normal build, 4 in a high performance build). -/
abbrev opraListLen (W : Nat) : Nat := (W + 1) * 3

/-- `NORFLASH_API_MODULE_ID_COUNT`. -/
abbrev moduleIdCount : Nat := 12

theorem moduleIdCount_ne : moduleIdCount ≠ 0 := by decide

instance moduleIdCount_ne_zero : NeZero moduleIdCount := ⟨moduleIdCount_ne⟩

/-- `HAL_NORFLASH_ID_NUM`. -/
abbrev halIdNum : Nat := 1

abbrev Slot (W : Nat) := Fin (opraListLen W)
abbrev Buf (W : Nat) := Fin W
abbrev ModId := Fin moduleIdCount

/-- `NORFLASH_API_RET_T`. -/
inductive Ret where
  | ok | bufferFull | badDevId | badModId | badBuffLen | badAddr | badLen | errUninit | errHasinit | err
  deriving DecidableEq, Repr

/-- `NORFLASH_API_OPRATION_TYPE` of a list node. -/
inductive OpraType where
  | writting | erasing
  deriving DecidableEq, Repr

/-- `NORFLASH_API_STATE`. -/
inductive State where
  | uninited | idle | writting | writtingSuspend | writtingResume | erase | eraseSuspend | eraseResume
  deriving DecidableEq, Repr

/-- `OPRA_INFO`. -/
structure OpraInfo (W : Nat) where
  type : OpraType
  addr : Nat
  len : Nat
  w_offs : Nat
  w_len : Nat
  buff : Option (Buf W)
  lock : Bool
  next : Option (Slot W)

/-- `OPERA_INFO_LIST`. -/
structure OperaInfoList (W : Nat) where
  is_used : Bool
  opera_info : OpraInfo W

/-- `DATA_LIST`. -/
structure DataList where
  is_used : Bool
  buffer : Nat → UInt8

/-- The static pools `opera_info_list` and `data_list`. -/
structure Pool (W : Nat) where
  opera_info_list : Slot W → OperaInfoList W
  data_list : Buf W → DataList

/-- `MODULE_INFO`. -/
structure ModuleInfo (W : Nat) where
  is_inited : Bool
  dev_id : Nat
  mod_id : Nat
  mod_base_addr : Nat
  mod_len : Nat
  mod_block_len : Nat
  mod_sector_len : Nat
  mod_page_len : Nat
  buff_len : Nat
  /-- Whether a callback is registered. -/
  cb_func : Bool
  opera_info : Option (Slot W)
  cur_opera_info : Option (Slot W)
  state : State

/-- `NORFLASH_API_OPERA_RESULT`, what a completed operation reports. -/
structure OperaResult where
  type : OpraType
  addr : Nat
  len : Nat
  remain_num : Nat
  result : Ret

/-- An operation the HAL has suspended; a write keeps a pointer into its buffer. -/
inductive HalOp (W : Nat) where
  | erase (addr len : Nat)
  | write (addr : Nat) (buff : Buf W) (offs len : Nat)
  deriving DecidableEq

structure Hal (W : Nat) where
  flash : Mem
  op : Option (HalOp W)

/-- `HAL_NORFLASH_RET_T`, as far as in-range operations return it. -/
inductive HalRet where
  | ok | suspended | badOp
  deriving DecidableEq

/-- What the HAL does with an operation that may be suspended: it completes it,
or stops with `mid` for the bits (a write) or bytes (an erase) left behind. -/
inductive HalAns where
  | ok
  | suspended (mid : Mem)

/-- A physical operation started for a module, in a ghost log. -/
structure Touch where
  mod : ModId
  addr : Nat
  len : Nat
  deriving DecidableEq

/-- `NORFLASH_API_INFO` with the pools, the HAL and the log of physical operations. -/
structure ApiInfo (W : Nat) where
  is_inited : Bool
  mod_info : ModId → ModuleInfo W
  cur_mod_id : Nat
  cur_mod : Option ModId
  /-- Whether `allowed_cb[NORFLASH_API_USER_CP]` is set. -/
  allowed_cb : Bool
  pool : Pool W
  hal : Hal W
  touched : List Touch

/-- The answers met in one call: of the registered `allowed_cb`, and of the HAL. -/
structure FlushEnv where
  allowed : Bool
  hal : HalAns

variable {W : Nat}

/-! ## Pools -/

namespace Pool

def node (p : Pool W) (i : Slot W) : OpraInfo W := (p.opera_info_list i).opera_info

def next (p : Pool W) (i : Slot W) : Option (Slot W) := (p.node i).next

/-- Stores a node record; the slot's `is_used` stays. -/
def setNode (p : Pool W) (i : Slot W) (n : OpraInfo W) : Pool W :=
  { p with opera_info_list :=
      Function.update p.opera_info_list i ⟨(p.opera_info_list i).is_used, n⟩ }

def setBuffer (p : Pool W) (b : Buf W) (d : Nat → UInt8) : Pool W :=
  { p with data_list := Function.update p.data_list b ⟨(p.data_list b).is_used, d⟩ }

def useNode (p : Pool W) (i : Slot W) (u : Bool) : Pool W :=
  { p with opera_info_list := Function.update p.opera_info_list i ⟨u, (p.opera_info_list i).opera_info⟩ }

def useBuff (p : Pool W) (b : Buf W) (u : Bool) : Pool W :=
  { p with data_list := Function.update p.data_list b ⟨u, (p.data_list b).buffer⟩ }

/-- `_norflash_api_malloc(sizeof(OPRA_INFO))`: the first unused slot. -/
def mallocNode (p : Pool W) : Option (Slot W) × Pool W :=
  match (List.finRange (opraListLen W)).find? (fun i => !(p.opera_info_list i).is_used) with
  | some i => (some i, p.useNode i true)
  | none => (none, p)

/-- `_norflash_api_malloc(size)` of a data buffer; any size but the sector size
trips the assertion (or, for `sizeof(OPRA_INFO)`, hands out a node as a buffer). -/
def mallocBuff (p : Pool W) (size : Nat) : Option (Option (Buf W) × Pool W) :=
  if size = sectorSize then
    match (List.finRange W).find? (fun b => !(p.data_list b).is_used) with
    | some b => some (some b, p.useBuff b true)
    | none => some (none, p)
  else none

/-- `_norflash_api_free` of a node and of a buffer. -/
def freeNode (p : Pool W) (i : Slot W) : Pool W := p.useNode i false
def freeBuff (p : Pool W) (b : Buf W) : Pool W := p.useBuff b false

/-- Frees a dropped node, and a write's buffer before it. -/
def freeOpra (p : Pool W) (i : Slot W) : Pool W :=
  match (p.node i).type, (p.node i).buff with
  | .writting, some b => (p.freeBuff b).freeNode i
  | _, _ => p.freeNode i

/-- `pre_node->next = tmp`; a null `pre_node` faults. -/
def setNext (p : Pool W) (pre tmp : Option (Slot W)) : Option (Pool W) :=
  pre.map fun i => p.setNode i { p.node i with next := tmp }

end Pool

/-! ## List helpers -/

/-- The number of iterations after which a list walk has met a node twice. -/
abbrev walkFuel (W : Nat) : Nat := opraListLen W

/-- `_get_tail`: finds and locks the last node. -/
def getTail (mi : ModuleInfo W) (is_remove : Bool) (p : Pool W) : Option (Option (Slot W) × Pool W) := do
  let r ← walk (ρ := Empty) p.next
    (fun (s : Option (Slot W) × Option (Slot W)) i tmp => .inr (some i, if tmp.isSome then some i else s.2))
    (walkFuel W) (none, mi.opera_info) mi.opera_info
  let (opera_node, pre_node) := r.elim Empty.elim id
  let p := if is_remove then (p.setNext pre_node none).getD p else p
  match opera_node with
  | none => some (none, p)
  | some i => some (some i, p.setNode i { p.node i with lock := true })

/-- `_opera_del`: unlinks the last node and frees it with its buffer. -/
def operaDel (mi : ModuleInfo W) (node : Slot W) (p : Pool W) : Option (ModuleInfo W × Pool W) := do
  let r ← walk p.next
    (fun (pre_node : Option (Slot W)) i tmp =>
      if i = node then .inl pre_node else .inr (if tmp.isSome then some i else pre_node))
    (walkFuel W) mi.opera_info mi.opera_info
  match r with
  | .inr _ => some (mi, p)
  | .inl pre_node =>
    let (mi, p) ←
      if mi.opera_info = some node then some ({ mi with opera_info := none }, p)
      else (p.setNext pre_node none).map (mi, ·)
    let p := match (p.node node).buff with
      | some b => p.freeBuff b
      | none => p
    some (mi, p.freeNode node)

/-- `_get_ew_count`, `_get_w_count` and `_get_e_count` count the nodes of some types. -/
def getCount (c : OpraInfo W → Bool) (head : Option (Slot W)) (p : Pool W) : Option Nat :=
  (walk (ρ := Empty) p.next (fun n i _ => .inr (if c (p.node i) then n + 1 else n)) (walkFuel W) 0 head).map
    (·.elim Empty.elim id)

def getEwCount (mi : ModuleInfo W) (p : Pool W) : Option Nat := getCount (fun _ => true) mi.opera_info p
def getWCount (mi : ModuleInfo W) (p : Pool W) : Option Nat :=
  getCount (fun n => n.type == .writting) mi.opera_info p
def getECount (mi : ModuleInfo W) (p : Pool W) : Option Nat :=
  getCount (fun n => n.type == .erasing) mi.opera_info p

/-! ## Queueing and reading -/

/-- `_opera_read`: the content of the first node for the sector, else of the flash. -/
def operaRead (mi : ModuleInfo W) (addr : Nat) (p : Pool W) (flash : Mem) : Option (Nat → UInt8) := do
  let sec_start := addr / mi.mod_sector_len * mi.mod_sector_len
  let r ← walk p.next
    (fun (_ : Unit) i _ => if (p.node i).addr = sec_start then .inl i else .inr ()) (walkFuel W) () mi.opera_info
  match r with
  | .inl i =>
    match (p.node i).type with
    | .writting =>
      let b ← (p.node i).buff
      some fun j => (p.data_list b).buffer (addr - sec_start + j)
    | .erasing => some fun _ => 0xff
  | .inr _ => some fun j => flash (addr + j)

/-- The deletion loop of `_e_opera_add`. The result says whether the erase was
merged into a locked one, with the list head and the pool at that point. -/
def eOperaAddLoop (addr : Nat) : Nat → Option (Slot W) → Pool W → Option (Slot W) → Option (Slot W) →
    Option (Bool × Option (Slot W) × Pool W)
  | _, head, p, _, none => some (false, head, p)
  | 0, _, _, _, some _ => none
  | fuel + 1, head, p, pre_node, some i => do
    let tmp := p.next i
    let pre' := if tmp.isSome then some i else pre_node
    if (p.node i).addr = addr then
      if (p.node i).lock = false then
        let (head, p) ← if head = some i then some (tmp, p) else (p.setNext pre_node tmp).map (head, ·)
        eOperaAddLoop addr fuel head (p.freeOpra i) pre' tmp
      else if (p.node i).type = .erasing then some (true, head, p)
      else eOperaAddLoop addr fuel head p pre' tmp
    else eOperaAddLoop addr fuel head p pre' tmp

/-- `_e_opera_add`: drops the pending operations of the address, then queues the erase. -/
def eOperaAdd (mi : ModuleInfo W) (addr len : Nat) (p : Pool W) : Option (Int × ModuleInfo W × Pool W) := do
  let (merged, head, p) ← eOperaAddLoop addr (walkFuel W) mi.opera_info p mi.opera_info mi.opera_info
  let mi := { mi with opera_info := head }
  if merged then some (0, mi, p)
  else match p.mallocNode with
    | (none, p) => some (1, mi, p)
    | (some i, p) =>
      some (0, { mi with opera_info := some i },
        p.setNode i { type := .erasing, addr, len, w_offs := 0, w_len := 0, buff := none, lock := false,
                      next := mi.opera_info })

/-- What the search loop of `_w_opera_add` stops at. -/
inductive Found (W : Nat) where
  | w_node (i : Slot W)
  | e_node (i : Slot W)

def wOperaFind (sec_start : Nat) (p : Pool W) (head : Option (Slot W)) : Option (Found W ⊕ Unit) :=
  walk p.next
    (fun (_ : Unit) i _ =>
      if (p.node i).addr = sec_start then
        match (p.node i).type with
        | .writting => if (p.node i).lock = false then .inl (.w_node i) else .inr ()
        | .erasing => .inl (.e_node i)
      else .inr ())
    (walkFuel W) () head

/-- The part of `_w_opera_add` that queues a new node, whose buffer starts as
`init`. The node's record is filled in before its buffer is allocated. -/
def wOperaNew (mi : ModuleInfo W) (sec_start w_offs w_len : Nat) (buff init : Nat → UInt8) (p : Pool W) :
    Option (Int × ModuleInfo W × Pool W) :=
  match p.mallocNode with
  | (none, p) => some (1, mi, p)
  | (some i, p) => do
    let n := { p.node i with type := .writting, addr := sec_start, len := mi.mod_sector_len, w_offs, w_len }
    let (b, p) ← p.mallocBuff mi.mod_sector_len
    match b with
    | none => some (1, mi, (p.setNode i { n with buff := none }).freeNode i)
    | some b =>
      if sectorSize < w_offs + w_len then none
      else
        let p := p.setBuffer b (memcpy init w_offs buff w_len)
        some (0, { mi with opera_info := some i },
          p.setNode i { n with buff := some b, lock := false, next := mi.opera_info })

/-- `_w_opera_add`: merges the write into a pending one of its sector, or queues
a new node whose buffer starts as the sector's content. Data that does not fit
in the sector would overrun the buffer. -/
def wOperaAdd (mi : ModuleInfo W) (addr len : Nat) (buff : Nat → UInt8) (p : Pool W) (flash : Mem) :
    Option (Int × ModuleInfo W × Pool W) := do
  let sec_len := mi.mod_sector_len
  let sec_start := addr / sec_len * sec_len
  let w_offs := addr - sec_start
  let w_len := len
  let found ← wOperaFind sec_start p mi.opera_info
  match found with
  | .inl (.w_node i) =>
    let n := p.node i
    let b ← n.buff
    if sectorSize < w_offs + w_len then none
    else
      let w_start := if n.w_offs ≤ w_offs then n.w_offs else w_offs
      let w_end1 := n.w_offs + n.w_len
      let w_end2 := w_offs + w_len
      let w_end := if w_end1 ≥ w_end2 then w_end1 else w_end2
      let p := p.setBuffer b (memcpy (p.data_list b).buffer w_offs buff w_len)
      some (0, mi, p.setNode i { n with w_offs := w_start, w_len := w_end - w_start })
  | .inl (.e_node _) => wOperaNew mi sec_start w_offs w_len buff (fun _ => 0xff) p
  | .inr _ => wOperaNew mi sec_start w_offs w_len buff (fun j => flash (sec_start + j)) p

/-! ## The HAL -/

namespace Hal

/-- `hal_norflash_write_suspend(addr, buff + offs, len, suspend)`. -/
def writeSuspend (h : Hal W) (data : Buf W → DataList) (addr : Nat) (buff : Buf W) (offs len : Nat)
    (suspend : Bool) (ans : HalAns) : HalRet × Hal W :=
  if h.op.isSome then (.badOp, h)
  else
    let src := fun j => (data buff).buffer (offs + j)
    match suspend, ans with
    | true, .suspended mid => (.suspended, ⟨programPart h.flash addr len src mid, some (.write addr buff offs len)⟩)
    | _, _ => (.ok, ⟨program h.flash addr len src, none⟩)

/-- `hal_norflash_write_resume(suspend)`. -/
def writeResume (h : Hal W) (data : Buf W → DataList) (suspend : Bool) (ans : HalAns) : HalRet × Hal W :=
  match h.op with
  | some (.write addr buff offs len) => writeSuspend { h with op := none } data addr buff offs len suspend ans
  | _ => (.badOp, h)

/-- `hal_norflash_erase_suspend(addr, len, suspend)`. -/
def eraseSuspend (h : Hal W) (addr len : Nat) (suspend : Bool) (ans : HalAns) : HalRet × Hal W :=
  if h.op.isSome then (.badOp, h)
  else match suspend, ans with
    | true, .suspended mid => (.suspended, ⟨erasePart h.flash addr len mid, some (.erase addr len)⟩)
    | _, _ => (.ok, ⟨NorMem.erase h.flash addr len, none⟩)

/-- `hal_norflash_erase_resume(suspend)`. -/
def eraseResume (h : Hal W) (suspend : Bool) (ans : HalAns) : HalRet × Hal W :=
  match h.op with
  | some (.erase addr len) => eraseSuspend { h with op := none } addr len suspend ans
  | _ => (.badOp, h)

/-- `hal_norflash_write`, never suspended. -/
def write (h : Hal W) (addr len : Nat) (src : Nat → UInt8) : HalRet × Hal W :=
  if h.op.isSome then (.badOp, h) else (.ok, { h with flash := program h.flash addr len src })

/-- `hal_norflash_erase`, never suspended. -/
def erase (h : Hal W) (addr len : Nat) : HalRet × Hal W :=
  if h.op.isSome then (.badOp, h) else (.ok, { h with flash := NorMem.erase h.flash addr len })

end Hal

/-! ## Flushing -/

/-- Starts or resumes the physical operation of node `n`; `none` for a module
state that does not fit the node. -/
def operaStart (n : OpraInfo W) (st : State) (data : Buf W → DataList) (suspend : Bool) (ans : HalAns)
    (h : Hal W) : Option (HalRet × Hal W) :=
  match n.type, st with
  | .writting, .idle =>
    if n.w_len > 0 then n.buff.map fun b => h.writeSuspend data (n.addr + n.w_offs) b n.w_offs n.w_len suspend ans
    else some (.ok, h)
  | .writting, .writtingSuspend => some (h.writeResume data suspend ans)
  | .erasing, .idle => some (h.eraseSuspend n.addr n.len suspend ans)
  | .erasing, .eraseSuspend => some (h.eraseResume suspend ans)
  | _, _ => none

/-- The address range of a node's physical operation. -/
def opraRange (n : OpraInfo W) : Nat × Nat :=
  match n.type with
  | .writting => (n.addr + n.w_offs, n.w_len)
  | .erasing => (n.addr, n.len)

/-- The node `_opera_flush` works on: the one it has suspended, else the last. -/
def curOrTail (mi : ModuleInfo W) (p : Pool W) : Option (Option (Slot W) × Pool W) :=
  match mi.cur_opera_info with
  | some c => some (some c, p)
  | none => getTail mi false p

/-- `_opera_flush`: executes or resumes the module's oldest operation. Returns
whether there was one, and what the callback was told. -/
def operaFlush (m : ModId) (nosuspend : Bool) (ans : HalAns) (s : ApiInfo W) :
    Option (Bool × Option OperaResult × ApiInfo W) := do
  let mi := s.mod_info m
  let (cur, p) ← curOrTail mi s.pool
  match cur with
  | none => some (false, none, s)
  | some c =>
    let n := p.node c
    let (result, hal) ← operaStart n mi.state p.data_list (!nosuspend) ans s.hal
    let touched := if mi.state = .idle then ⟨m, (opraRange n).1, (opraRange n).2⟩ :: s.touched else s.touched
    match result with
    | .ok =>
      let count ← getEwCount mi p
      let report := if !nosuspend && mi.cb_func && decide ((opraRange n).2 > 0) then
          some ⟨n.type, (opraRange n).1, (opraRange n).2, count - 1, .ok⟩
        else none
      let (mi, p) ← operaDel { mi with cur_opera_info := some c, state := .idle } c p
      some (true, report, { s with mod_info := Function.update s.mod_info m { mi with cur_opera_info := none },
                                   pool := p, hal, touched })
    | .suspended =>
      let st := match n.type with
        | .writting => State.writtingSuspend
        | .erasing => .eraseSuspend
      some (true, none, { s with mod_info := Function.update s.mod_info m { mi with cur_opera_info := some c, state := st },
                                 pool := p, hal, touched })
    | .badOp => none

/-- `_flush_is_allowed`; a callback that allows is unregistered. -/
def flushIsAllowed (allowed : Bool) (s : ApiInfo W) : Bool × ApiInfo W :=
  if s.allowed_cb then
    if allowed then (true, { s with allowed_cb := false }) else (false, s)
  else (true, s)

/-- The round-robin search of `_get_cur_mod` over `n` more modules. -/
def getCurModLoop (s : ApiInfo W) : Nat → Nat → Option (Option ModId)
  | 0, _ => some none
  | n + 1, tmp_mod_id => do
    let tmp := if tmp_mod_id + 1 ≥ moduleIdCount then 0 else tmp_mod_id + 1
    if h : tmp < moduleIdCount then
      let m : ModId := ⟨tmp, h⟩
      if (s.mod_info m).is_inited then
        let count ← getEwCount (s.mod_info m) s.pool
        if count > 0 then some (some m) else getCurModLoop s n tmp
      else getCurModLoop s n tmp
    else getCurModLoop s n tmp

/-- `_get_cur_mod`. -/
def getCurMod (s : ApiInfo W) : Option (Option ModId) :=
  match s.cur_mod with
  | some m => some (some m)
  | none => getCurModLoop s moduleIdCount s.cur_mod_id

/-- `norflash_api_flush`: -1 before initialisation, 0 when nothing was to do, else 1. -/
def norflashApiFlush (env : FlushEnv) (s : ApiInfo W) : Option (Int × Option OperaResult × ApiInfo W) := do
  if !s.is_inited then some (-1, none, s)
  else
    let (allowed, s) := flushIsAllowed env.allowed s
    if !allowed then some (0, none, s)
    else
      let cur ← getCurMod s
      match cur with
      | none => some (0, none, s)
      | some m =>
        let (bret, report, s) ← operaFlush m false env.hal { s with cur_mod_id := m.val, cur_mod := some m }
        some (1, report, if bret then s else { s with cur_mod := none })

/-! ## The interface -/

/-- `API_IS_ALIGN`. -/
def apiIsAlign (v size : Nat) : Bool := v / size * size = v

/-- `norflash_api_init`; the static pools keep their content. -/
def norflashApiInit (s : ApiInfo W) : ApiInfo W :=
  { s with
    is_inited := true
    mod_info := fun _ => ⟨false, 0, 0, 0, 0, 0, 0, 0, 0, false, none, none, .uninited⟩
    cur_mod_id := moduleIdCount
    cur_mod := none
    allowed_cb := false }

/-- The arguments of `norflash_api_register`. -/
structure Registration where
  mod_id : Nat
  dev_id : Nat
  mod_base_addr : Nat
  mod_len : Nat
  mod_block_len : Nat
  mod_sector_len : Nat
  mod_page_len : Nat
  buffer_len : Nat
  cb_func : Bool

/-- `norflash_api_register`. -/
def norflashApiRegister (r : Registration) (s : ApiInfo W) : Ret × ApiInfo W :=
  if !s.is_inited then (.errUninit, s)
  else if hm : r.mod_id < moduleIdCount then
    if r.dev_id ≥ halIdNum then (.badDevId, s)
    else if r.buffer_len < r.mod_sector_len || !apiIsAlign r.buffer_len r.mod_sector_len then (.badBuffLen, s)
    else
      let m : ModId := ⟨r.mod_id, hm⟩
      if (s.mod_info m).is_inited then (.ok, s)
      else
        let mi : ModuleInfo W :=
          { is_inited := true, dev_id := r.dev_id, mod_id := r.mod_id, mod_base_addr := r.mod_base_addr,
            mod_len := r.mod_len, mod_block_len := r.mod_block_len, mod_sector_len := r.mod_sector_len,
            mod_page_len := r.mod_page_len, buff_len := r.buffer_len, cb_func := r.cb_func,
            opera_info := none, cur_opera_info := none, state := .idle }
        (.ok, { s with mod_info := Function.update s.mod_info m mi })
  else (.badModId, s)

/-- `start_addr < base || start_addr + len > base + mod_len`, in 32-bit arithmetic. -/
def outOfRange (mi : ModuleInfo W) (start_addr len : Nat) : Bool :=
  start_addr < mi.mod_base_addr || (start_addr + len) % 2 ^ 32 > (mi.mod_base_addr + mi.mod_len) % 2 ^ 32

/-- `norflash_api_read`, with the `len` bytes read. -/
def norflashApiRead (mod_id start_addr len : Nat) (s : ApiInfo W) : Option (Ret × List UInt8) :=
  if !s.is_inited then some (.errUninit, [])
  else if hm : mod_id < moduleIdCount then
    let mi := s.mod_info ⟨mod_id, hm⟩
    if !mi.is_inited then some (.errUninit, [])
    else if outOfRange mi start_addr len then some (.badAddr, [])
    else if len = 0 then some (.badLen, [])
    else do
      let buff ← operaRead mi start_addr s.pool s.hal.flash
      some (.ok, (List.range len).map buff)
  else some (.badModId, [])

/-- `norflash_sync_read`: the flash itself. -/
def norflashSyncRead (mod_id start_addr len : Nat) (s : ApiInfo W) : Ret × List UInt8 :=
  if !s.is_inited then (.errUninit, [])
  else if hm : mod_id < moduleIdCount then
    let mi := s.mod_info ⟨mod_id, hm⟩
    if !mi.is_inited then (.errUninit, [])
    else if outOfRange mi start_addr len then (.badAddr, [])
    else if len = 0 then (.badLen, [])
    else (.ok, (List.range len).map fun j => s.hal.flash (start_addr + j))
  else (.badModId, [])

/-- The first loop of a synchronous call: finish the suspended operation of
another module. Returns `bresult` as it stands after the loop. -/
def drainCurMod (cur : ModId) : Bool → List FlushEnv → ApiInfo W → Option (Bool × List FlushEnv × ApiInfo W)
  | bresult, script, s =>
    if (s.mod_info cur).state = .idle then some (bresult, script, s)
    else match script with
      | [] => none
      | env :: script => do
        let (allowed, s) := flushIsAllowed env.allowed s
        if !allowed then drainCurMod cur bresult script s
        else
          let (b, _, s) ← operaFlush cur true env.hal s
          drainCurMod cur b script (if b then s else { s with cur_mod := none })

/-- The second loop: `do { if (!_flush_is_allowed()) continue; bresult = _opera_flush(); } while (bresult)`.
The `continue` jumps to the loop's condition. -/
def drainMod (m : ModId) : Bool → List FlushEnv → ApiInfo W → Option (List FlushEnv × ApiInfo W)
  | _, [], _ => none
  | bresult, env :: script, s => do
    let (allowed, s) := flushIsAllowed env.allowed s
    if !allowed then
      if bresult then drainMod m bresult script s else some (script, s)
    else
      let (b, _, s) ← operaFlush m true env.hal s
      if b then drainMod m b script s else some (script, s)

/-- What a synchronous call does before its own operation. -/
def drainAll (m : ModId) (script : List FlushEnv) (s : ApiInfo W) : Option (List FlushEnv × ApiInfo W) := do
  let (bresult, script, s) ← match s.cur_mod with
    | some cur => if m ≠ cur then drainCurMod cur false script s else some (false, script, s)
    | none => some (false, script, s)
  drainMod m bresult script s

/-- A synchronous call's own operation, and its return value. -/
def syncResult (r : HalRet) : Ret :=
  match r with
  | .ok => .ok
  | _ => .err

/-- `norflash_api_erase`. A synchronous call consumes `script`, one entry per
iteration of its loops; `none` when it is still in a loop at the script's end. -/
def norflashApiErase (mod_id start_addr len : Nat) (async : Bool) (script : List FlushEnv) (s : ApiInfo W) :
    Option (Ret × List FlushEnv × ApiInfo W) :=
  if !s.is_inited then some (.errUninit, script, s)
  else if hm : mod_id < moduleIdCount then
    let m : ModId := ⟨mod_id, hm⟩
    let mi := s.mod_info m
    if !mi.is_inited then some (.errUninit, script, s)
    else if outOfRange mi start_addr len then some (.badAddr, script, s)
    else if !apiIsAlign start_addr mi.mod_sector_len then some (.badAddr, script, s)
    else if len ≠ mi.mod_sector_len ∧ len ≠ mi.mod_block_len then some (.badLen, script, s)
    else if async then do
      let (result, mi, p) ← eOperaAdd mi start_addr len s.pool
      some (if result = 0 then .ok else .bufferFull, script,
        { s with mod_info := Function.update s.mod_info m mi, pool := p })
    else do
      let (script, s) ← drainAll m script s
      let (r, hal) := s.hal.erase start_addr len
      some (syncResult r, script, { s with hal, touched := ⟨m, start_addr, len⟩ :: s.touched })
  else some (.badModId, script, s)

/-- `norflash_api_write`. Its check of `mod_id` admits `NORFLASH_API_MODULE_ID_COUNT`,
one past the end of `mod_info`. -/
def norflashApiWrite (mod_id start_addr : Nat) (buffer : Nat → UInt8) (len : Nat) (async : Bool)
    (script : List FlushEnv) (s : ApiInfo W) : Option (Ret × List FlushEnv × ApiInfo W) :=
  if !s.is_inited then some (.errUninit, script, s)
  else if mod_id > moduleIdCount then some (.badModId, script, s)
  else if hm : mod_id < moduleIdCount then
    let m : ModId := ⟨mod_id, hm⟩
    let mi := s.mod_info m
    if !mi.is_inited then some (.errUninit, script, s)
    else if outOfRange mi start_addr len then some (.badAddr, script, s)
    else if len = 0 then some (.badLen, script, s)
    else if async then do
      let (result, mi, p) ← wOperaAdd mi start_addr len buffer s.pool s.hal.flash
      some (if result = 0 then .ok else .bufferFull, script,
        { s with mod_info := Function.update s.mod_info m mi, pool := p })
    else do
      let (script, s) ← drainAll m script s
      let (r, hal) := s.hal.write start_addr len buffer
      some (syncResult r, script, { s with hal, touched := ⟨m, start_addr, len⟩ :: s.touched })
  else none

/-- The `type` argument of the counting functions. -/
inductive CountType where
  | writting | erasing | all
  deriving DecidableEq

def CountType.hasW (t : CountType) : Bool := t != .erasing
def CountType.hasE (t : CountType) : Bool := t != .writting

/-- `norflash_api_buffer_is_free`. -/
def norflashApiBufferIsFree (m : ModId) (s : ApiInfo W) : Option Bool := do
  if (s.mod_info m).is_inited then
    let count ← getEwCount (s.mod_info m) s.pool
    some (count = 0)
  else none

/-- `norflash_api_get_used_buffer_count`. -/
def norflashApiGetUsedBufferCount (m : ModId) (type : CountType) (s : ApiInfo W) : Option Nat := do
  if (s.mod_info m).is_inited then
    let w ← if type.hasW then getWCount (s.mod_info m) s.pool else some 0
    let e ← if type.hasE then getECount (s.mod_info m) s.pool else some 0
    some (w + e)
  else none

/-- The sum of a count over the registered modules. -/
def sumCounts (count : ModuleInfo W → Pool W → Option Nat) (s : ApiInfo W) : List ModId → Option Nat
  | [] => some 0
  | m :: ms => do
    let rest ← sumCounts count s ms
    if (s.mod_info m).is_inited then
      let c ← count (s.mod_info m) s.pool
      some (c + rest)
    else some rest

/-- `norflash_api_get_free_buffer_count`. -/
def norflashApiGetFreeBufferCount (type : CountType) (s : ApiInfo W) : Option Nat := do
  let mods := List.finRange moduleIdCount
  let used_w ← if type.hasW then sumCounts getWCount s mods else some 0
  if opraListLen W < used_w then none
  else
    let free_w := if type.hasW then opraListLen W - used_w else 0
    let used_e ← if type.hasE then sumCounts getECount s mods else some 0
    if type.hasE && decide (opraListLen W < used_w + used_e) then none
    else some (free_w + if type.hasE then opraListLen W - (used_w + used_e) else 0)

/-- `norflash_api_flush_disable` and `norflash_api_flush_enable` for the one user, `NORFLASH_API_USER_CP`. -/
def norflashApiFlushDisable (s : ApiInfo W) : ApiInfo W :=
  if s.is_inited then { s with allowed_cb := true } else s

def norflashApiFlushEnable (s : ApiInfo W) : ApiInfo W :=
  if s.is_inited then { s with allowed_cb := false } else s

/-! ## Helpers for the application -/

/-- `FLASH_NC_BASE` of the best2300p memory map. -/
abbrev flashNcBase : Nat := 0x38000000

/-- `app_flush_pending_flash_op`: flush until the module has no operation of the type left. -/
def appFlushPendingFlashOp (m : ModId) (type : CountType) :
    List FlushEnv → ApiInfo W → Option (List FlushEnv × ApiInfo W)
  | [], _ => none
  | env :: script, s => do
    let (_, _, s) ← norflashApiFlush env s
    let done ← match type with
      | .all => norflashApiBufferIsFree m s
      | type => (norflashApiGetUsedBufferCount m type s).map (· = 0)
    if done then some (script, s) else appFlushPendingFlashOp m type script s

end Norflash
