import UcoreSmp.AddressSpaceRun
import UcoreSmp.AllocPages
import UcoreSmp.DescTable
import UcoreSmp.ExecImage
import UcoreSmp.FamilyRun
import UcoreSmp.FileTableRun
import UcoreSmp.InodeCacheRun
import UcoreSmp.Kmonitor
import UcoreSmp.MonitorRun
import UcoreSmp.MpTable
import UcoreSmp.PlusCallsRun
import UcoreSmp.PlusPid
import UcoreSmp.ProcessViews
import UcoreSmp.Refcache
import UcoreSmp.SfsSizeBlocks
import UcoreSmp.SfsTruncation
import UcoreSmp.SignalDelivery
import UcoreSmp.StdinDevice
import UcoreSmp.StrideOrder
import UcoreSmp.StrideShare
import UcoreSmp.SysfileIo
import UcoreSmp.TimerRun
import UcoreSmp.UserMemCheck
import UcoreSmp.VfsMount
import UcoreSmp.VfsOpen
