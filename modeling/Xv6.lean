import Xv6.Lib.Bytes
import Xv6.Lib.Store
import Xv6.Lib.DList
import Xv6.Lib.StateExcept
import Xv6.Param
import Xv6.Log.Basic
import Xv6.Log.Crash
import Xv6.Log.Group
import Xv6.Log.Admission
import Xv6.Bio.Basic
import Xv6.Bio.Invariant
import Xv6.Log.Pin
import Xv6.Fs.Layout
import Xv6.Vm.Copy
import Xv6.Fs.Inode
import Xv6.Fs.ReadWrite
import Xv6.Fs.Dir
import Xv6.Fs.Sysfile
import Xv6.Fs.Contents
import Xv6.Fs.Links
import Xv6.Fs.Path
import Xv6.Lib.SList
import Xv6.Lib.Ring
import Xv6.Vm.Memory
import Xv6.Vm.Kalloc
import Xv6.Vm.Walk
import Xv6.Vm.Tree
import Xv6.Proc.Basic
import Xv6.Lib.Machine
import Xv6.Proc.Table
import Xv6.Proc.Tree
import Xv6.User.Grep
import Xv6.Fs.Pipe
import Xv6.Dev.Console
import Xv6.Dev.Virtio
import Xv6.Mem.Memmove
import Xv6.Lock.Spinlock
import Xv6.Fs.Bitmap
import Xv6.User.Printf
import Xv6.Fs.Filewrite
import Xv6.Lib.Splice
import Xv6.Fs.FileBlocks
import Xv6.Fs.FileBytes
import Xv6.Fs.FilewriteBytes
import Xv6.Fs.Directory
import Xv6.Fs.Trunc
import Xv6.User.Sh
import Xv6.User.ShTree
import Xv6.User.ShPrint
